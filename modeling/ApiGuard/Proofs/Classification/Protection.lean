/-
  ApiGuard.Proofs.Classification.Protection
  ─────────────────────────────────────────
  What it means that a caller of a used method is guarded.

  A caller is guarded if the graph stores a guarded edge from it to a spelling of
  the method, or one from whose target a chain of stored edges leads to the caller.
  A finding lists all callers of its method and is guarded if one of them is.
  Libraries have no say in that: they only decide which callers come with a trace.

      isGuarded_iff           guarded callers, by stored edges
      classify_mapCallers     grounds with corresponding callers have
                              corresponding findings
      classify_protection     both, for each listed method
-/
import ApiGuard.Classification
import ApiGuard.Proofs.CallGraph.Leading

namespace ApiGuard

/-! ## §1. Findings with other facts. -/

/-- The finding with changed facts about its callers. -/
def Finding.mapCallers (change : CallerFacts → CallerFacts) (f : Finding) : Finding :=
  { f with callers := f.callers.map change }

/-- The classification with changed facts about callers. -/
def Classification.mapCallers (change : CallerFacts → CallerFacts) (c : Classification) :
    Classification :=
  { c with findings := c.findings.map (Finding.mapCallers change) }

/-- To change facts about callers moves no finding to another bucket. -/
theorem Classification.bucket_mapCallers (change : CallerFacts → CallerFacts)
    (c : Classification) (side : Side) (protection : Protection) :
    (c.mapCallers change).bucket side protection
      = (c.bucket side protection).map (Finding.mapCallers change) := by
  unfold Classification.bucket Classification.mapCallers
  rw [List.filter_map]
  rfl

theorem Classification.mapCallers_id (c : Classification) : c.mapCallers id = c := by
  have hfinding : Finding.mapCallers id = id := by
    funext f
    unfold Finding.mapCallers
    rw [List.map_id]
    rfl
  unfold Classification.mapCallers
  rw [hfinding, List.map_id]

namespace Grounds

variable {k : Grounds}

theorem findings_eq (k : Grounds) (w : LevelWindow) (api : String) :
    k.findings w api = (missingSides (k.table.lookup api) w).map fun side =>
      ⟨k.table.lookup api, side, protectionOf (k.callerFacts api), k.callerFacts api⟩ := by
  unfold findings
  dsimp only
  split
  next hnone => rw [hnone]; rfl
  next => rfl

/-- A finding is guarded if one of its callers is. -/
theorem protectionOf_eq_guarded_iff {callers : List CallerFacts} :
    protectionOf callers = .guarded ↔ ∃ e ∈ callers, e.isGuarded = true := by
  unfold protectionOf
  rw [← List.any_eq_true]
  cases callers.any (·.isGuarded) <;> simp

/-- The protection is known from the guarded callers. -/
theorem protectionOf_map {change : CallerFacts → CallerFacts}
    (hguard : ∀ e, (change e).isGuarded = e.isGuarded) (callers : List CallerFacts) :
    protectionOf (callers.map change) = protectionOf callers := by
  unfold protectionOf
  rw [List.any_map]
  congr 2
  exact List.any_congr rfl fun e => hguard e

/-- Grounds with one table and corresponding facts about callers have corresponding
findings. -/
theorem classify_mapCallers {k k' : Grounds} (htable : k.table = k'.table)
    {change change' : CallerFacts → CallerFacts}
    (hguard : ∀ e, (change e).isGuarded = e.isGuarded)
    (hguard' : ∀ e, (change' e).isGuarded = e.isGuarded)
    (hfacts : ∀ api, (k.callerFacts api).map change = (k'.callerFacts api).map change')
    (apis : List String) (w : LevelWindow) :
    (k.classify apis w).mapCallers change = (k'.classify apis w).mapCallers change' := by
  have hfindings : ∀ api, (k.findings w api).map (Finding.mapCallers change)
      = (k'.findings w api).map (Finding.mapCallers change') := by
    intro api
    have hprotection : protectionOf (k.callerFacts api) = protectionOf (k'.callerFacts api) := by
      rw [← protectionOf_map hguard, hfacts, protectionOf_map hguard']
    rw [findings_eq, findings_eq, List.map_map, List.map_map, htable]
    refine List.map_congr_left fun side _ => ?_
    show Finding.mk _ _ (protectionOf _) ((k.callerFacts api).map change)
      = Finding.mk _ _ (protectionOf _) ((k'.callerFacts api).map change')
    rw [hprotection, hfacts]
  unfold Classification.mapCallers classify
  dsimp only
  rw [List.map_flatMap, List.map_flatMap, htable]
  simp only [hfindings]

/-! ## §2. Guarded callers. -/

/-- A caller is guarded by an edge to a spelling of the method, or by one on the way to
the caller. -/
theorem isGuarded_iff (h : k.graph.WellFormed) {caller api : String} :
    k.isGuarded caller api = true
      ↔ (∃ e ∈ k.graph.storedEdges, e.isGuarded = true ∧ e.source = caller
          ∧ e.target ∈ k.callers.spellingsOf api)
        ∨ ∃ e ∈ k.graph.storedEdges, e.isGuarded = true
          ∧ ∃ n, k.graph.Leads n e.target caller := by
  have hcall : (k.callers.spellingsOf api).toList.any
        (fun target => (k.graph.find? ⟨caller, target⟩).any Edge.isGuarded) = true
      ↔ ∃ e ∈ k.graph.storedEdges, e.isGuarded = true ∧ e.source = caller
          ∧ e.target ∈ k.callers.spellingsOf api := by
    simp only [List.any_eq_true, Option.any_eq_true, h.find?_eq_some_iff]
    constructor
    · rintro ⟨target, htarget, e, ⟨he, harc⟩, hguarded⟩
      obtain ⟨hsource, rfl⟩ := Arc.mk.inj harc
      exact ⟨e, he, hguarded, hsource, htarget⟩
    · rintro ⟨e, he, hguarded, rfl, htarget⟩
      exact ⟨e.target, htarget, e, ⟨he, rfl⟩, hguarded⟩
  have hway : (!(k.graph.guardsLeadingTo caller).isEmpty) = true
      ↔ ∃ e ∈ k.graph.storedEdges, e.isGuarded = true
          ∧ ∃ n, k.graph.Leads n e.target caller := by
    rw [Bool.not_eq_true', List.isEmpty_eq_false_iff_exists_mem]
    simp only [h.mem_guardsLeadingTo]
    constructor
    · rintro ⟨_, n, e, he, hguarded, _, hleads⟩
      exact ⟨e, he, hguarded, n, hleads⟩
    · rintro ⟨e, he, hguarded, n, hleads⟩
      exact ⟨e.conditions, n, e, he, hguarded, rfl, hleads⟩
  unfold isGuarded
  rw [Bool.or_eq_true, hcall, hway]

/-! ## §3. Libraries. -/

/-- The facts about a caller for other libraries: whether it belongs to one, and its
trace if it does not. -/
def relabel (k : Grounds) (isLibrary : String → Bool) (e : CallerFacts) : CallerFacts :=
  { e with
    isLibrary := isLibrary (Signature.declaringClass e.caller)
    trace :=
      if isLibrary (Signature.declaringClass e.caller) then none
      else some (k.graph.callerTrace e.caller) }

/-- Other libraries relabel the callers and change nothing else. -/
theorem classify_of_libraries (k : Grounds) (isLibrary : String → Bool) (apis : List String)
    (w : LevelWindow) :
    ({ k with isLibrary } : Grounds).classify apis w
      = (k.classify apis w).mapCallers (k.relabel isLibrary) := by
  have htable : ({ k with isLibrary } : Grounds).table = k.table := rfl
  have hguard : ∀ e : CallerFacts, (id e).isGuarded = e.isGuarded := fun _ => rfl
  have hguard' : ∀ e, (k.relabel isLibrary e).isGuarded = e.isGuarded := fun _ => rfl
  have hfacts : ∀ api, (({ k with isLibrary } : Grounds).callerFacts api).map id
      = (k.callerFacts api).map (k.relabel isLibrary) := by
    intro api
    rw [List.map_id]
    unfold callerFacts
    rw [List.map_map]
    rfl
  rw [← Classification.mapCallers_id (({ k with isLibrary } : Grounds).classify apis w)]
  exact classify_mapCallers htable hguard hguard' hfacts apis w

/-! ## §4. Protection. -/

/-- For each listed method there is one finding for each side on which it is missing.

It lists the callers of the method in order.  A caller is guarded just if the graph
stores a guarded edge from it to a spelling of the method, or one from whose target a
chain of stored edges, which may be empty, leads to the caller; the finding is guarded
just if one of the callers is.  A caller has a trace just if its class is in no library,
and with other libraries that is all that changes. -/
theorem classify_protection (hg : k.graph.Reachable) (apis : List String) (w : LevelWindow) :
    (∀ api ∈ apis,
      (k.findings w api).map Finding.side = missingSides (k.table.lookup api) w
      ∧ ∀ f ∈ k.findings w api, f ∈ (k.classify apis w).findings
        ∧ f.callers.map CallerFacts.caller = (k.callers.callersOf api).toList
        ∧ (f.protection = .guarded ↔ ∃ e ∈ f.callers, e.isGuarded = true)
        ∧ ∀ e ∈ f.callers,
          (e.isGuarded = true
            ↔ (∃ edge ∈ k.graph.storedEdges, edge.isGuarded = true ∧ edge.source = e.caller
                ∧ edge.target ∈ k.callers.spellingsOf api)
              ∨ ∃ edge ∈ k.graph.storedEdges, edge.isGuarded = true
                ∧ ∃ n, k.graph.Leads n edge.target e.caller)
          ∧ e.isLibrary = k.isLibrary (Signature.declaringClass e.caller)
          ∧ (e.trace.isSome = true ↔ e.isLibrary = false))
    ∧ ∀ isLibrary : String → Bool,
        ({ k with isLibrary } : Grounds).classify apis w
          = (k.classify apis w).mapCallers (k.relabel isLibrary) := by
  have h := hg.wellFormed
  refine ⟨fun api hapi => ⟨?_, fun f hf => ?_⟩, fun isLibrary =>
    classify_of_libraries k isLibrary apis w⟩
  · rw [findings_eq, List.map_map]
    exact List.map_id _
  · refine ⟨List.mem_flatMap.mpr ⟨api, hapi, hf⟩, ?_⟩
    rw [findings_eq] at hf
    obtain ⟨side, _, rfl⟩ := List.mem_map.mp hf
    refine ⟨?_, protectionOf_eq_guarded_iff, fun e he => ?_⟩
    · show (k.callerFacts api).map CallerFacts.caller = _
      unfold callerFacts
      rw [List.map_map]
      exact List.map_id _
    · obtain ⟨caller, _, rfl⟩ := List.mem_map.mp he
      refine ⟨isGuarded_iff h, rfl, ?_⟩
      unfold factsOf
      cases k.isLibrary (Signature.declaringClass caller) <;> simp

/-- A method is called under a condition and calls a method of the platform, as does a
library. -/
def channelCalls : List CallGraph.Operation :=
  [.record ⟨"<app.Main: void run()>", "<app.Notifier: void show()>"⟩ (.ofList [.holds "sdk >= 26"]),
    .record ⟨"<app.Notifier: void show()>", "<android.app.Channel: void open()>"⟩ ∅,
    .record ⟨"<lib.Compat: void show()>", "<android.app.Channel: void open()>"⟩ ∅]

/-- The grounds that these calls give, with the lifetime of the method of the platform. -/
def channelGrounds : Grounds where
  graph := CallGraph.built channelCalls
  callers :=
    { callersOf := fun _ => .ofList ["<app.Notifier: void show()>", "<lib.Compat: void show()>"]
      spellingsOf := fun api => .ofList [api] }
  table := (∅ : LifetimeTable).insert "<android.app.Channel: void open()>" (.known 26) (.known 34)
  isLibrary := (· == "lib.Compat")

/-- The guard on the way to one caller protects the finding, although no call of the method
is guarded.  The caller is in no library and has a trace. -/
theorem classify_protection_channel :
    channelGrounds.graph.Reachable
    ∧ (∃ f ∈ (channelGrounds.classify ["<android.app.Channel: void open()>"] ⟨21, 34⟩).findings,
        f.side = .backward ∧ f.protection = .guarded
        ∧ f.callers.map CallerFacts.caller
          = ["<app.Notifier: void show()>", "<lib.Compat: void show()>"])
    ∧ ∀ f ∈ channelGrounds.findings ⟨21, 34⟩ "<android.app.Channel: void open()>",
        ∀ e ∈ f.callers, e.caller = "<app.Notifier: void show()>" →
          e.isGuarded = true ∧ e.trace.isSome = true := by
  have hreachable : channelGrounds.graph.Reachable := ⟨channelCalls, rfl⟩
  obtain ⟨hlisted, _⟩ := classify_protection hreachable ["<android.app.Channel: void open()>"]
    ⟨21, 34⟩
  obtain ⟨hsides, hfindings⟩ := hlisted _ List.mem_cons_self
  have hsome : ∃ edge ∈ channelGrounds.graph.storedEdges,
      edge.isGuarded = true ∧ edge.target = "<app.Notifier: void show()>" := by
    decide +kernel
  have hcaller : ∀ f ∈ channelGrounds.findings ⟨21, 34⟩ "<android.app.Channel: void open()>",
      ∀ e ∈ f.callers, e.caller = "<app.Notifier: void show()>" →
        e.isGuarded = true ∧ e.trace.isSome = true := by
    intro f hf e he hname
    obtain ⟨_, _, _, hfacts⟩ := hfindings f hf
    obtain ⟨hguarded, hlibrary, htrace⟩ := hfacts e he
    obtain ⟨edge, hedge, hguard, htarget⟩ := hsome
    refine ⟨hguarded.mpr (.inr ⟨edge, hedge, hguard, 0, htarget.trans hname.symm⟩), ?_⟩
    rw [htrace, hlibrary, hname]
    decide +kernel
  refine ⟨hreachable, ?_, hcaller⟩
  have hmissing : missingSides (channelGrounds.table.lookup "<android.app.Channel: void open()>")
      ⟨21, 34⟩ = [.backward] := by
    decide +kernel
  rw [hmissing, List.map_eq_singleton_iff] at hsides
  obtain ⟨f, hf, hside⟩ := hsides
  have hmem : f ∈ channelGrounds.findings ⟨21, 34⟩ "<android.app.Channel: void open()>" := by
    rw [hf]
    exact List.mem_singleton_self f
  obtain ⟨hfound, hcallers, hprotection, _⟩ := hfindings f hmem
  have hnames : f.callers.map CallerFacts.caller
      = ["<app.Notifier: void show()>", "<lib.Compat: void show()>"] := hcallers
  have hnotifier : "<app.Notifier: void show()>" ∈ f.callers.map CallerFacts.caller := by
    rw [hnames]
    exact List.mem_cons_self
  obtain ⟨e, he, hname⟩ := List.mem_map.mp hnotifier
  exact ⟨f, hfound, hside, hprotection.mpr ⟨e, he, (hcaller f hmem e he hname).1⟩, hnames⟩

end Grounds

end ApiGuard
