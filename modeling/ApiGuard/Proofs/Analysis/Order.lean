/-
  ApiGuard.Proofs.Analysis.Order
  ──────────────────────────────
  The order in which bodies come, and the units that they are in, do not matter.

  If no two bodies are of one method, runs over the same bodies store the same edges with
  the same conditions and note the same uses, up to the units.  Edges differ in their
  numbers, and so traces may differ, but nothing else does that findings show:

      storedEdges_linkConstructors_congr   linking looks at edges and not at numbers
      classify_untraced_congr              so does the classification, but for traces
      run_order_independent                runs over the same bodies
-/
import ApiGuard.Proofs.Analysis.Runs
import ApiGuard.Proofs.Classification.Protection

namespace ApiGuard

/-! ## §1. Graphs with the same edges. -/

namespace CallGraph

variable {g g' : CallGraph}

theorem leads_congr (hedges : ∀ e, e ∈ g.storedEdges ↔ e ∈ g'.storedEdges) {n : Nat} :
    ∀ {m target : String}, g.Leads n m target ↔ g'.Leads n m target := by
  induction n with
  | zero => exact Iff.rfl
  | succ n ih =>
      intro m target
      unfold Leads IsStored
      simp only [hedges, ih]

/-- What is linked depends on the edges that are stored and their conditions. -/
theorem storedEdges_linkConstructors_congr (h : g.Indexed) (h' : g'.Indexed)
    (hstored : ∀ a, g.IsStored a ↔ g'.IsStored a)
    (hconditions : ∀ a c, c ∈ g.conditionsAt a ↔ c ∈ g'.conditionsAt a) (e : Edge) :
    e ∈ g.linkConstructors.1.storedEdges ↔ e ∈ g'.linkConstructors.1.storedEdges := by
  have hsame : g.IsStored = g'.IsStored := funext fun a => propext (hstored a)
  have hlinked : g.linkConstructors.1.conditionsAt e.toArc
      = g'.linkConstructors.1.conditionsAt e.toArc := by
    refine SortedSet.ext fun c => ?_
    rw [h.mem_conditionsAt_linkConstructors, h'.mem_conditionsAt_linkConstructors, hconditions,
      hsame]
  rw [h.linkConstructors.mem_storedEdges_iff_isStored,
    h'.linkConstructors.mem_storedEdges_iff_isStored, h.isStored_linkConstructors,
    h'.isStored_linkConstructors, hlinked, hsame]

end CallGraph

/-! ## §2. Findings without traces. -/

/-- The facts about a caller without its trace. -/
def CallerFacts.untraced (e : CallerFacts) : CallerFacts := { e with trace := none }

namespace Grounds

variable {k : Grounds} {g : CallGraph}

theorem isGuarded_congr (h : k.graph.WellFormed) (hg : g.WellFormed)
    (hedges : ∀ e, e ∈ k.graph.storedEdges ↔ e ∈ g.storedEdges) (caller api : String) :
    k.isGuarded caller api = ({ k with graph := g } : Grounds).isGuarded caller api := by
  have hg' : ({ k with graph := g } : Grounds).graph.WellFormed := hg
  rw [Bool.eq_iff_iff, isGuarded_iff h, isGuarded_iff hg']
  simp only [hedges, CallGraph.leads_congr hedges]

/-- But for traces, a graph with the same edges gives the same findings. -/
theorem classify_untraced_congr (h : k.graph.WellFormed) (hg : g.WellFormed)
    (hedges : ∀ e, e ∈ k.graph.storedEdges ↔ e ∈ g.storedEdges) (apis : List String)
    (w : LevelWindow) :
    (k.classify apis w).mapCallers CallerFacts.untraced
      = (({ k with graph := g } : Grounds).classify apis w).mapCallers CallerFacts.untraced := by
  have htable : k.table = ({ k with graph := g } : Grounds).table := rfl
  have huntraced : ∀ e : CallerFacts, e.untraced.isGuarded = e.isGuarded := fun _ => rfl
  have hfacts : ∀ api, (k.callerFacts api).map CallerFacts.untraced
      = (({ k with graph := g } : Grounds).callerFacts api).map CallerFacts.untraced := by
    intro api
    unfold callerFacts
    rw [List.map_map, List.map_map]
    refine List.map_congr_left fun caller _ => ?_
    unfold Function.comp factsOf CallerFacts.untraced
    simp only [isGuarded_congr h hg hedges]
  exact classify_mapCallers htable huntraced huntraced hfacts apis w

end Grounds

namespace Analysis

open ApiUsage

variable {inputs : AnalysisInputs} {units units' : List CodeUnit}

/-! ## §3. The bodies of units. -/

/-- The bodies of all units that are not skipped. -/
def analyzed (config : AnalysisConfig) (units : List CodeUnit) : List Body :=
  (units.flatMap CodeUnit.bodies).filter fun body => !config.excludes body.signature

/-- A body of a unit of the kind, which is not skipped, uses the method. -/
def IsUsedIn (inputs : AnalysisInputs) (units : List CodeUnit) (isPrimary : Bool)
    (api : String) : Prop :=
  ∃ u ∈ units, u.isPrimary = isPrimary
    ∧ ∃ body ∈ u.bodies, inputs.config.excludes body.signature = false
      ∧ ∃ invoked, body.Invokes invoked
        ∧ platformMethod? inputs.table inputs.hierarchy invoked = some api

theorem map_body_entriesOf (config : AnalysisConfig) (units : List CodeUnit) :
    (entriesOf config units).map Entry.body = analyzed config units := by
  unfold entriesOf analyzed
  rw [List.map_flatMap, List.filter_flatMap]
  simp only [List.map_map]
  refine List.flatMap_congr fun u _ => ?_
  exact List.map_id _

theorem exists_entry_iff {config : AnalysisConfig} {P : Body → Prop} :
    (∃ entry ∈ entriesOf config units, P entry.body) ↔ ∃ body ∈ analyzed config units, P body := by
  rw [← map_body_entriesOf]
  constructor
  · rintro ⟨entry, hentry, hP⟩
    exact ⟨entry.body, List.mem_map_of_mem hentry, hP⟩
  · rintro ⟨body, hbody, hP⟩
    obtain ⟨entry, hentry, rfl⟩ := List.mem_map.mp hbody
    exact ⟨entry, hentry, hP⟩

theorem mem_entriesOf {config : AnalysisConfig} {entry : Entry} :
    entry ∈ entriesOf config units
      ↔ ∃ u ∈ units, u.isPrimary = entry.isPrimary ∧ entry.body ∈ u.bodies
          ∧ config.excludes entry.body.signature = false := by
  unfold entriesOf
  simp only [List.mem_flatMap, List.mem_map, List.mem_filter, Bool.not_eq_true']
  constructor
  · rintro ⟨u, hu, body, ⟨hbody, hkept⟩, rfl⟩
    exact ⟨u, hu, rfl, hbody, hkept⟩
  · rintro ⟨u, hu, hprimary, hbody, hkept⟩
    exact ⟨u, hu, entry.body, ⟨hbody, hkept⟩, by rw [hprimary]⟩

theorem reflects_run (inputs : AnalysisInputs) (units : List CodeUnit) :
    Reflects (run inputs units).usage (usesOfAll inputs (entriesOf inputs.config units)) := by
  rw [run_eq]
  exact reflects_entered _

/-- The uses in whatever unit. -/
theorem exists_use_iff_exists_body {caller invoked api : String} :
    (∃ b, (⟨b, caller, invoked, api⟩ : Use) ∈ usesOfAll inputs (entriesOf inputs.config units))
      ↔ ∃ body ∈ analyzed inputs.config units, caller = body.signature ∧ body.Invokes invoked
          ∧ platformMethod? inputs.table inputs.hierarchy invoked = some api := by
  rw [← exists_entry_iff]
  simp only [mem_usesOfAll]
  constructor
  · rintro ⟨_, entry, hentry, _, huse⟩
    exact ⟨entry, hentry, huse⟩
  · rintro ⟨entry, hentry, huse⟩
    exact ⟨entry.isPrimary, entry, hentry, rfl, huse⟩

/-- The uses in units of one kind. -/
theorem exists_use_iff_isUsedIn {isPrimary : Bool} {api : String} :
    (∃ use ∈ usesOfAll inputs (entriesOf inputs.config units),
        use.isPrimary = isPrimary ∧ api = use.api)
      ↔ IsUsedIn inputs units isPrimary api := by
  simp only [mem_usesOfAll, mem_entriesOf]
  constructor
  · rintro ⟨use, ⟨entry, ⟨u, hu, hkind, hbody, hkept⟩, hprimary, _, hinvokes, hapi⟩, rfl, rfl⟩
    exact ⟨u, hu, hkind.trans hprimary.symm, entry.body, hbody, hkept, use.invoked, hinvokes, hapi⟩
  · rintro ⟨u, hu, rfl, body, hbody, hkept, invoked, hinvokes, hapi⟩
    exact ⟨⟨u.isPrimary, body.signature, invoked, api⟩,
      ⟨⟨u.isPrimary, body⟩, ⟨u, hu, rfl, hbody, hkept⟩, rfl, rfl, hinvokes, hapi⟩, rfl, rfl⟩

/-! ## §4. Runs over the same bodies. -/

theorem reachable_run (inputs : AnalysisInputs) (units : List CodeUnit) :
    (run inputs units).graph.Reachable := by
  rw [run_eq]
  exact (reachable_entered _).apply .linkConstructors

/-- But for traces, what an analysis finds depends on its edges and on its uses. -/
theorem classify_untraced_congr {a a' : Analysis} (ha : a.graph.Reachable)
    (ha' : a'.graph.Reachable) (hedges : ∀ e, e ∈ a.graph.storedEdges ↔ e ∈ a'.graph.storedEdges)
    (hused : a.usage.used = a'.usage.used) (hsites : a.usage.callSites = a'.usage.callSites)
    (table : LifetimeTable) (isLibrary : String → Bool) (w : LevelWindow) :
    (a.classify table isLibrary w).mapCallers CallerFacts.untraced
      = (a'.classify table isLibrary w).mapCallers CallerFacts.untraced := by
  unfold Analysis.classify
  rw [← hused, ← hsites]
  exact Grounds.classify_untraced_congr (k := ⟨a.graph, _, table, isLibrary⟩) ha.wellFormed
    ha'.wellFormed hedges _ w

/-- Runs over the same bodies store the same edges, with the same conditions. -/
theorem storedEdges_run_congr
    (hnodup : ((analyzed inputs.config units).map Body.signature).Nodup)
    (hnodup' : ((analyzed inputs.config units').map Body.signature).Nodup)
    (hsame : ∀ body, body ∈ analyzed inputs.config units ↔ body ∈ analyzed inputs.config units')
    (e : Edge) :
    e ∈ (run inputs units).graph.storedEdges ↔ e ∈ (run inputs units').graph.storedEdges := by
  -- edges of one graph may have other numbers in the other, so compared is what is seen
  rw [run_eq, run_eq]
  refine CallGraph.storedEdges_linkConstructors_congr (reachable_entered _).indexed
    (reachable_entered _).indexed (fun a => ?_) (fun a c => ?_) e
  · simp only [graph_entered, map_body_entriesOf, CallGraph.isStored_recordAll, hsame]
  · simp only [graph_entered, map_body_entriesOf, CallGraph.mem_conditionsAt_recordAll hnodup,
      CallGraph.mem_conditionsAt_recordAll hnodup', hsame]

/-- Runs over the same bodies note the same callers and spellings of each used method, and
whether the version is read. -/
theorem usage_run_congr
    (hsame : ∀ body, body ∈ analyzed inputs.config units ↔ body ∈ analyzed inputs.config units') :
    (run inputs units).usage.callers = (run inputs units').usage.callers
      ∧ (run inputs units).usage.spellings = (run inputs units').usage.spellings
      ∧ (run inputs units).usage.readsVersion = (run inputs units').usage.readsVersion := by
  obtain ⟨hcallers, hspellings⟩ := (reflects_run inputs units).tables_eq
    (reflects_run inputs units') fun caller invoked api => by
      simp only [exists_use_iff_exists_body, hsame]
  refine ⟨hcallers, hspellings, ?_⟩
  rw [run_eq, run_eq, Bool.eq_iff_iff]
  -- to finish changes the graph and not the usage
  show (entered _ _).usage.readsVersion = true ↔ (entered _ _).usage.readsVersion = true
  simp only [readsVersion_entered, map_body_entriesOf, hsame]

/-- If no two bodies that are not skipped are of one method, what a run finds depends on
these bodies alone, and neither on their order nor on the units they are in: the stored
edges with their conditions, the used methods, the callers and spellings of each, and
whether the version is read.  So do the findings in each bucket, but for traces.

Which methods the main unit uses and which the others do depends on the units, and
together these are the used ones. -/
theorem run_order_independent
    (hnodup : ((analyzed inputs.config units).map Body.signature).Nodup)
    (hnodup' : ((analyzed inputs.config units').map Body.signature).Nodup)
    (hsame : ∀ body, body ∈ analyzed inputs.config units ↔ body ∈ analyzed inputs.config units') :
    (∀ e, e ∈ (run inputs units).graph.storedEdges ↔ e ∈ (run inputs units').graph.storedEdges)
    ∧ ((run inputs units).usage.used = (run inputs units').usage.used
      ∧ (run inputs units).usage.callSites = (run inputs units').usage.callSites
      ∧ (run inputs units).usage.readsVersion = (run inputs units').usage.readsVersion)
    ∧ (∀ table isLibrary w,
        ((run inputs units).classify table isLibrary w).mapCallers CallerFacts.untraced
            = ((run inputs units').classify table isLibrary w).mapCallers CallerFacts.untraced
        ∧ ∀ side protection,
          (((run inputs units).classify table isLibrary w).bucket side protection).map
              (Finding.mapCallers CallerFacts.untraced)
            = (((run inputs units').classify table isLibrary w).bucket side protection).map
              (Finding.mapCallers CallerFacts.untraced))
    ∧ (∀ api, (api ∈ (run inputs units).usage.primary ↔ IsUsedIn inputs units true api)
      ∧ (api ∈ (run inputs units).usage.secondary ↔ IsUsedIn inputs units false api)
      ∧ (api ∈ (run inputs units).usage.used
        ↔ api ∈ (run inputs units).usage.primary ∨ api ∈ (run inputs units).usage.secondary)) := by
  have hedges := storedEdges_run_congr hnodup hnodup' hsame
  obtain ⟨hcallers, hspellings, hreads⟩ := usage_run_congr hsame
  have hused : (run inputs units).usage.used = (run inputs units').usage.used :=
    congrArg SortedMap.keys hcallers
  have hsites : (run inputs units).usage.callSites = (run inputs units').usage.callSites := by
    unfold callSites
    rw [hcallers, hspellings]
  have hfindings := fun table isLibrary w => classify_untraced_congr (reachable_run inputs units)
    (reachable_run inputs units') hedges hused hsites table isLibrary w
  have hreflects := reflects_run inputs units
  refine ⟨hedges, ⟨hused, hsites, hreads⟩, fun table isLibrary w =>
    ⟨hfindings table isLibrary w, fun side protection => ?_⟩, fun api => ⟨?_, ?_, ?_⟩⟩
  · rw [← Classification.bucket_mapCallers, hfindings, Classification.bucket_mapCallers]
  · rw [hreflects.mem_primary, exists_use_iff_isUsedIn]
  · rw [hreflects.mem_secondary, exists_use_iff_isUsedIn]
  · exact hreflects.mem_used_iff_primary_or_secondary

/-- Both bodies in the main unit. -/
def together : List CodeUnit := [⟨true, [notifySwitch, notifier]⟩]

/-- The notifier in another unit, before its caller. -/
def apart : List CodeUnit := [⟨false, [notifier]⟩, ⟨true, [notifySwitch]⟩]

/-- To move the notifier to another unit, and before its caller, keeps the guarded call of
it.  The platform is then no longer used by the main unit. -/
theorem run_order_independent_notifier :
    ((analyzed channelInputs.config together).map Body.signature).Nodup
    ∧ ((analyzed channelInputs.config apart).map Body.signature).Nodup
    ∧ (∀ body, body ∈ analyzed channelInputs.config together
        ↔ body ∈ analyzed channelInputs.config apart)
    ∧ (∃ e ∈ (run channelInputs apart).graph.storedEdges,
        e.source = notifySwitch.signature ∧ e.target = notifier.signature ∧ e.isGuarded = true)
    ∧ (run channelInputs apart).usage.used = ["<android.app.Channel: void open()>"]
    ∧ "<android.app.Channel: void open()>" ∈ (run channelInputs together).usage.primary
    ∧ "<android.app.Channel: void open()>" ∉ (run channelInputs apart).usage.primary := by
  have htogether : analyzed channelInputs.config together = [notifySwitch, notifier] := by cbv
  have hapart : analyzed channelInputs.config apart = [notifier, notifySwitch] := by cbv
  have hnodup : ([notifySwitch, notifier].map Body.signature).Nodup := by decide
  have hnodup' : ([notifier, notifySwitch].map Body.signature).Nodup := by decide
  have hsame : ∀ body, body ∈ [notifySwitch, notifier] ↔ body ∈ [notifier, notifySwitch] := by
    intro body
    rw [List.mem_pair, List.mem_pair, or_comm]
  rw [← htogether] at hnodup hsame
  rw [← hapart] at hnodup' hsame
  obtain ⟨hedges, ⟨hused, _, _⟩, _, _⟩ := run_order_independent hnodup hnodup' hsame
  have hcalls : Walk.callVisits channelInputs.config.markers notifySwitch
      = [⟨2, .ofList [.negated "sdk < 26"]⟩] := by
    cbv
  have hcalls' : Walk.callVisits channelInputs.config.markers notifier = [⟨0, ∅⟩] := by
    cbv
  have hgraph : (run channelInputs together).graph
      = ((CallGraph.recordVisits ∅ channelInputs.hierarchy.subtypes notifySwitch
          [⟨2, .ofList [.negated "sdk < 26"]⟩]).recordVisits channelInputs.hierarchy.subtypes
            notifier [⟨0, ∅⟩]).linkConstructors.1 := by
    rw [run_eq]
    show (entered channelInputs _).graph.linkConstructors.1 = _
    rw [graph_entered, map_body_entriesOf, htogether, ← hcalls, ← hcalls',
      ← CallGraph.recordBody_eq_callVisits, ← CallGraph.recordBody_eq_callVisits]
    rfl
  have hguarded : ∃ e ∈ (run channelInputs together).graph.storedEdges,
      e.source = notifySwitch.signature ∧ e.target = notifier.signature
        ∧ e.isGuarded = true := by
    rw [hgraph]
    decide +kernel
  obtain ⟨e, he, hedge⟩ := hguarded
  refine ⟨hnodup, hnodup', hsame, ⟨e, (hedges e).mp he, hedge⟩, ?_, ?_, ?_⟩
  · rw [← hused]
    decide +kernel
  · decide +kernel
  · decide +kernel

end Analysis

end ApiGuard
