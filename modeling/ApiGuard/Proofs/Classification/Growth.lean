/-
  ApiGuard.Proofs.Classification.Growth
  ─────────────────────────────────────
  Findings are guarded for good.

  If the graph grows and all else stays, so do the findings and their callers, and a caller
  that is guarded stays guarded.  A finding may thus become guarded, but none becomes
  problematic:

      isGuarded_mono       guarded callers are guarded in a graph that has grown
      forall₂_classify     each finding has its counterpart, in order
      protection_mono      for any operations after those that build a graph
-/
import ApiGuard.Proofs.CallGraph.Growth
import ApiGuard.Proofs.Classification.Buckets

namespace ApiGuard

/-! ## §1. Findings that stay. -/

/-- The second facts are about the same caller, which is guarded if it was by the first. -/
structure CallerFacts.Le (e e' : CallerFacts) : Prop where
  caller : e'.caller = e.caller
  isLibrary : e'.isLibrary = e.isLibrary
  isGuarded : e.isGuarded = true → e'.isGuarded = true

/-- The second finding is about the same method, side and callers, and is guarded if the
first is. -/
structure Finding.Le (f f' : Finding) : Prop where
  lifetime : f'.lifetime = f.lifetime
  side : f'.side = f.side
  protection : f.protection = .guarded → f'.protection = .guarded
  callers : List.Forall₂ CallerFacts.Le f.callers f'.callers

namespace Grounds

/-- The grounds with another graph. -/
def withGraph (k : Grounds) (g : CallGraph) : Grounds := { k with graph := g }

variable {k : Grounds} {g : CallGraph} {w : LevelWindow} {side : Side} {api : String}

/-! ## §2. Graphs that have grown. -/

/-- Guarded callers are guarded in a graph that has grown. -/
theorem isGuarded_mono (hle : k.graph.Within g) (h : k.graph.WellFormed) (h' : g.WellFormed)
    {caller : String} (hguarded : k.isGuarded caller api = true) :
    (k.withGraph g).isGuarded caller api = true := by
  refine (isGuarded_iff (k := k.withGraph g) h').mpr ?_
  rcases (isGuarded_iff h).mp hguarded with
    ⟨e, he, hedge, hsource, htarget⟩ | ⟨e, he, hedge, n, hleads⟩
  · obtain ⟨e', he', harc, hedge'⟩ := hle.exists_guarded h h' he hedge
    obtain ⟨hsame, hsame'⟩ := Arc.mk.inj harc
    exact .inl ⟨e', he', hedge', hsame.trans hsource, hsame' ▸ htarget⟩
  · obtain ⟨e', he', harc, hedge'⟩ := hle.exists_guarded h h' he hedge
    obtain ⟨_, hsame⟩ := Arc.mk.inj harc
    exact .inr ⟨e', he', hedge', n, hsame ▸ hle.leads h h' hleads⟩

theorem protectionOf_mono (hle : k.graph.Within g) (h : k.graph.WellFormed) (h' : g.WellFormed)
    (hguarded : protectionOf (k.callerFacts api) = .guarded) :
    protectionOf ((k.withGraph g).callerFacts api) = .guarded := by
  obtain ⟨caller, hcaller, hguard⟩ := protectionOf_callerFacts_eq_guarded_iff.mp hguarded
  exact protectionOf_callerFacts_eq_guarded_iff.mpr
    ⟨caller, hcaller, isGuarded_mono hle h h' hguard⟩

/-- The finding for a method stays, with all of its callers. -/
theorem findingOn_le (hle : k.graph.Within g) (h : k.graph.WellFormed) (h' : g.WellFormed)
    (side : Side) (api : String) :
    (k.findingOn side api).Le ((k.withGraph g).findingOn side api) where
  lifetime := rfl
  side := rfl
  protection := protectionOf_mono hle h h'
  callers := by
    show List.Forall₂ _ (List.map _ _) (List.map _ _)
    rw [List.forall₂_map_left_iff, List.forall₂_map_right_iff]
    exact List.forall₂_same.mpr fun caller _ => ⟨rfl, rfl, isGuarded_mono hle h h'⟩

/-- Each finding has its counterpart, in order. -/
theorem forall₂_classify (hle : k.graph.Within g) (h : k.graph.WellFormed) (h' : g.WellFormed)
    (apis : List String) (w : LevelWindow) :
    List.Forall₂ Finding.Le (k.classify apis w).findings
      ((k.withGraph g).classify apis w).findings := by
  have hfindings : ∀ api,
      List.Forall₂ Finding.Le (k.findings w api) ((k.withGraph g).findings w api) := by
    intro api
    rw [findings_eq, findings_eq, List.forall₂_map_left_iff, List.forall₂_map_right_iff]
    exact List.forall₂_same.mpr fun side _ => findingOn_le hle h h' side api
  show List.Forall₂ _ (apis.flatMap _) (apis.flatMap _)
  induction apis with
  | nil => exact .nil
  | cons api rest ih => exact List.rel_append (hfindings api) ih

/-- A method in a guarded bucket stays there. -/
theorem fallsIn_guarded_mono (hle : k.graph.Within g) (h : k.graph.WellFormed)
    (h' : g.WellFormed) (hfalls : k.fallsIn w side .guarded api = true) :
    (k.withGraph g).fallsIn w side .guarded api = true := by
  obtain ⟨hlacks, hguarded⟩ := fallsIn_iff.mp hfalls
  obtain ⟨caller, hcaller, hguard⟩ := hguarded.mp rfl
  exact fallsIn_iff.mpr
    ⟨hlacks, iff_of_true rfl ⟨caller, hcaller, isGuarded_mono hle h h' hguard⟩⟩

/-- A method in a problematic bucket was there before. -/
theorem fallsIn_problematic_anti (hle : k.graph.Within g) (h : k.graph.WellFormed)
    (h' : g.WellFormed) (hfalls : (k.withGraph g).fallsIn w side .problematic api = true) :
    k.fallsIn w side .problematic api = true := by
  obtain ⟨hlacks, hguarded⟩ := fallsIn_iff.mp hfalls
  -- a guarded caller would be guarded in the graph that has grown
  refine fallsIn_iff.mpr ⟨hlacks, iff_of_false (by decide) ?_⟩
  rintro ⟨caller, hcaller, hguard⟩
  exact absurd (hguarded.mpr ⟨caller, hcaller, isGuarded_mono hle h h' hguard⟩) (by decide)

/-- The lifetimes in a bucket are those of the methods that fall in it. -/
theorem lifetimes_bucket (k : Grounds) (apis : List String) (w : LevelWindow) (side : Side)
    (p : Protection) :
    ((k.classify apis w).bucket side p).map Finding.lifetime
      = (apis.filter (k.fallsIn w side p)).map k.table.lookup := by
  rw [bucket_classify, List.map_map]
  rfl

/-! ## §3. Operations. -/

/-- Whatever operations follow, an edge that is stored is stored by the same number, with
the same ends and no fewer conditions.

Each finding then has its counterpart, for the same method, side and callers, and neither
the finding nor a caller of it is guarded no longer.  So methods are only added to guarded
buckets and only taken out of problematic ones. -/
theorem protection_mono (hg : k.graph.Reachable) (ops : List CallGraph.Operation) :
    (∀ id e, k.graph.edges[id]? = some e → id ∈ k.graph.idsInto e.target →
      ∃ e', (ops.foldl CallGraph.apply k.graph).edges[id]? = some e'
        ∧ id ∈ (ops.foldl CallGraph.apply k.graph).idsInto e'.target
        ∧ e'.toArc = e.toArc ∧ ∀ c ∈ e.conditions, c ∈ e'.conditions)
    ∧ ∀ apis w,
      List.Forall₂ Finding.Le (k.classify apis w).findings
        ((k.withGraph (ops.foldl CallGraph.apply k.graph)).classify apis w).findings
      ∧ ∀ side,
        (((k.classify apis w).bucket side .guarded).map Finding.lifetime).Sublist
            ((((k.withGraph (ops.foldl CallGraph.apply k.graph)).classify apis w).bucket side
              .guarded).map Finding.lifetime)
          ∧ ((((k.withGraph (ops.foldl CallGraph.apply k.graph)).classify apis w).bucket side
              .problematic).map Finding.lifetime).Sublist
            (((k.classify apis w).bucket side .problematic).map Finding.lifetime) := by
  have hle := CallGraph.within_foldl_apply ops k.graph
  have h := hg.wellFormed
  have h' := (hg.foldl_apply ops).wellFormed
  refine ⟨fun id e he hid => ?_, fun apis w =>
    ⟨forall₂_classify hle h h' apis w, fun side => ⟨?_, ?_⟩⟩⟩
  · obtain ⟨e', he', harc, hconditions⟩ := hle.edge he
    have htarget : e'.target = e.target := congrArg Arc.target harc
    refine ⟨e', he', ?_, harc, hconditions⟩
    rw [htarget]
    exact hle.stored hid
  · rw [lifetimes_bucket, lifetimes_bucket]
    exact (List.monotone_filter_right apis fun _ => fallsIn_guarded_mono hle h h').map _
  · rw [lifetimes_bucket, lifetimes_bucket]
    exact (List.monotone_filter_right apis fun _ => fallsIn_problematic_anti hle h h').map _

/-- The guarded call on a path without a guard, constructors, and another call. -/
def laterCalls : List CallGraph.Operation :=
  [.addCondition 0 ∅, .linkConstructors,
    .record ⟨"<lib.Compat: void show()>", "<app.Notifier: void show()>"⟩ ∅]

/-- The finding stays guarded, although the way to its caller is now also without a guard. -/
theorem protection_mono_channel :
    channelGrounds.graph.Reachable
    ∧ (∃ f ∈ ((channelGrounds.withGraph
            (laterCalls.foldl CallGraph.apply channelGrounds.graph)).classify
              ["<android.app.Channel: void open()>"] ⟨21, 34⟩).bucket .backward .guarded,
        f.lifetime.signature = "<android.app.Channel: void open()>")
    ∧ ∃ e, channelGrounds.graph.edges[0]? = some e ∧ 0 ∈ channelGrounds.graph.idsInto e.target
        ∧ 0 ∈ (laterCalls.foldl CallGraph.apply channelGrounds.graph).idsInto e.target := by
  have hreachable : channelGrounds.graph.Reachable := ⟨channelCalls, rfl⟩
  obtain ⟨hedges, hfindings⟩ := protection_mono hreachable laterCalls
  have hguarded : ∃ f ∈ (channelGrounds.classify ["<android.app.Channel: void open()>"]
      ⟨21, 34⟩).bucket .backward .guarded,
        f.lifetime.signature = "<android.app.Channel: void open()>" := by
    decide +kernel
  obtain ⟨f, hf, hsignature⟩ := hguarded
  obtain ⟨_, hbuckets⟩ := hfindings ["<android.app.Channel: void open()>"] ⟨21, 34⟩
  obtain ⟨f', hf', hlifetime⟩ :=
    List.mem_map.mp ((hbuckets .backward).1.subset (List.mem_map_of_mem hf))
  have hstored : ∃ e ∈ channelGrounds.graph.edges[0]?,
      0 ∈ channelGrounds.graph.idsInto e.target := by
    decide +kernel
  obtain ⟨e, he, hid⟩ := hstored
  obtain ⟨e', _, hid', harc, _⟩ := hedges 0 e he hid
  have htarget : e'.target = e.target := congrArg Arc.target harc
  exact ⟨hreachable, ⟨f', hf', hlifetime ▸ hsignature⟩, e, he, hid, htarget ▸ hid'⟩

end Grounds

end ApiGuard
