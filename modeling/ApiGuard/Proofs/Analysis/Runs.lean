/-
  ApiGuard.Proofs.Analysis.Runs
  ─────────────────────────────
  What a run of the analysis has in the end, by the bodies entered.

  Each body touches the edges from its own method and notes its own uses, so that the
  graph and the usage of a run are known from its bodies one by one:

      isStored_recordAll           stored are the edges that some body stores
      mem_conditionsAt_recordAll   if no two bodies are of one method, on an edge are
                                   the conditions that its own body puts there
      reflects_taken               what is noted are the uses of all bodies, each with the
                                   hierarchy and the table that were at hand for it
      reachable_taken              and the graph is one that operations build
-/
import ApiGuard.Bundle
import ApiGuard.Proofs.Analysis.Uses
import ApiGuard.Proofs.CallGraph.Constructors
import ApiGuard.Proofs.Guard.Overrides

namespace ApiGuard

namespace CallGraph

variable {g : CallGraph} {subtypes : Subtyping} {markers : GuardMarkers} {body : Body}

/-! ## §1. Recording by operations. -/

theorem Reachable.apply (hg : g.Reachable) (op : Operation) : (g.apply op).Reachable := by
  obtain ⟨ops, rfl⟩ := hg
  exact ⟨ops ++ [op], built_concat ops op⟩

theorem Reachable.indexed (hg : g.Reachable) : g.Indexed := by
  obtain ⟨ops, rfl⟩ := hg
  exact indexed_run ops

/-- The edge of an arc is requested, extended and added. -/
theorem Reachable.extendArc (hg : g.Reachable) (arc : Arc) (cs : Conditions) :
    (g.extendArc arc cs).Reachable :=
  ((hg.apply (.intern arc)).apply (.extend (g.intern arc).2 cs)).apply (.add (g.intern arc).2)

theorem Reachable.extendAll (caller : String) (cs : Conditions) (targets : List String) :
    ∀ {g : CallGraph}, g.Reachable → (g.extendAll caller cs targets).Reachable := by
  induction targets with
  | nil => exact fun hg => hg
  | cons target rest ih => exact fun hg => ih (hg.extendArc _ _)

/-- What visits record are operations on the graph, one after the other. -/
theorem Reachable.recordVisits (visits : List Visit) :
    ∀ {g : CallGraph}, g.Reachable → (g.recordVisits subtypes body visits).Reachable := by
  induction visits with
  | nil => exact fun hg => hg
  | cons v rest ih =>
      intro g hg
      refine ih ?_
      show (g.recordAt subtypes body v.place v.condition).Reachable
      unfold CallGraph.recordAt
      cases body.call? v.place with
      | none => exact hg
      | some call =>
          show (g.recordCall subtypes body.signature call v.condition).Reachable
          rw [recordCall_eq]
          exact (hg.extendArc _ _).extendAll _ _ _

theorem Reachable.recordBody (hg : g.Reachable) (body : Body) :
    (g.recordBody subtypes markers body).Reachable := by
  rw [recordBody_eq_recordVisits]
  exact hg.recordVisits _

/-! ## §2. Recording bodies. -/

/-- Record the calls of bodies, one after the other. -/
def recordAll (g : CallGraph) (subtypes : Subtyping) (markers : GuardMarkers)
    (bodies : List Body) : CallGraph :=
  bodies.foldl (fun g body => g.recordBody subtypes markers body) g

theorem recordAll_concat (g : CallGraph) (bodies : List Body) (body : Body) :
    g.recordAll subtypes markers (bodies ++ [body])
      = (g.recordAll subtypes markers bodies).recordBody subtypes markers body := by
  unfold recordAll
  rw [List.foldl_append]
  rfl

theorem Reachable.recordAll (hg : g.Reachable) (bodies : List Body) :
    (g.recordAll subtypes markers bodies).Reachable := by
  induction bodies using List.reverseRecOn with
  | nil => exact hg
  | append_singleton bodies body ih =>
      rw [recordAll_concat]
      exact ih.recordBody body

/-- Stored are the edges to all methods that the calls reached in some body may run. -/
theorem isStored_recordAll {bodies : List Body} {a : Arc} :
    (recordAll ∅ subtypes markers bodies).IsStored a
      ↔ ∃ body ∈ bodies, a.source = body.signature ∧ a.isValid = true
          ∧ ∃ i, body.IsReached i ∧ body.MayRunAt subtypes i a.target := by
  induction bodies using List.reverseRecOn with
  | nil =>
      constructor
      · rintro ⟨_, he, _⟩
        cases he
      · rintro ⟨_, hbody, _⟩
        cases hbody
  | append_singleton bodies body ih =>
      -- the last body stores its edges, whatever is stored by then
      rw [recordAll_concat, (reachable_empty.recordAll bodies).wellFormed.isStored_recordBody, ih,
        exists_mem_concat]

end CallGraph

/-- The body puts the condition on the edge to the method: it comes there by some of the
calls visited. -/
def Body.Puts (body : Body) (subtypes : Subtyping) (markers : GuardMarkers)
    (c : PathCondition) (target : String) : Prop :=
  ∃ route, route.Sublist (Walk.callVisits markers body) ∧ HandedOn subtypes body route c target

namespace CallGraph

variable {g : CallGraph} {subtypes : Subtyping} {markers : GuardMarkers} {body : Body}

/-- If there are no conditions on the edges from its method yet, a body adds those that it
puts there, and changes none on the edges from other methods. -/
theorem WellFormed.mem_conditionsAt_recordBody (h : g.WellFormed)
    (hnone : ∀ target, g.conditionsAt ⟨body.signature, target⟩ = ∅) {a : Arc}
    {c : PathCondition} :
    c ∈ (g.recordBody subtypes markers body).conditionsAt a
      ↔ c ∈ g.conditionsAt a
        ∨ (a.source = body.signature ∧ body.Puts subtypes markers c a.target) := by
  rw [recordBody_eq_callVisits]
  by_cases hsource : a.source = body.signature
  · -- what is on these edges afterwards has come there by the visits
    obtain ⟨source, target⟩ := a
    obtain rfl : source = body.signature := hsource
    rw [mem_conditionsAt_iff_handedOn h hnone, hnone]
    unfold Body.Puts
    simp
  · rw [conditionsAt_recordVisits_of_ne h hsource]
    simp [hsource]

/-- If no two bodies are of one method, the conditions on an edge are those that the body
of its method puts there. -/
theorem mem_conditionsAt_recordAll {bodies : List Body}
    (hnodup : (bodies.map Body.signature).Nodup) :
    ∀ {a : Arc} {c : PathCondition},
      c ∈ (recordAll ∅ subtypes markers bodies).conditionsAt a
        ↔ ∃ body ∈ bodies, a.source = body.signature
            ∧ body.Puts subtypes markers c a.target := by
  induction bodies using List.reverseRecOn with
  | nil =>
      intro a c
      constructor
      · exact fun hc => absurd hc (SortedSet.not_mem_empty c)
      · rintro ⟨_, hbody, _⟩
        cases hbody
  | append_singleton bodies body ih =>
      intro a c
      rw [List.map_append, List.nodup_append] at hnodup
      obtain ⟨hbefore, _, hdisjoint⟩ := hnodup
      -- no body before is of the same method, so the last one finds nothing on its edges
      have hnone : ∀ target,
          (recordAll ∅ subtypes markers bodies).conditionsAt ⟨body.signature, target⟩ = ∅ := by
        refine fun target => SortedSet.ext fun c => ?_
        rw [ih hbefore]
        refine iff_of_false ?_ (SortedSet.not_mem_empty c)
        rintro ⟨other, hother, hsame, _⟩
        exact hdisjoint _ (List.mem_map_of_mem hother) _ List.mem_cons_self hsame.symm
      have h : (recordAll ∅ subtypes markers bodies).WellFormed :=
        (reachable_empty.recordAll bodies).wellFormed
      rw [recordAll_concat, h.mem_conditionsAt_recordBody hnone, ih hbefore, exists_mem_concat]

end CallGraph

/-! ## §3. Taking bodies in. -/

/-- A body as it is entered. -/
structure Entry where
  /-- The body is in the main unit. -/
  isPrimary : Bool
  body : Body

/-- A body that is taken in, with what is at hand then. -/
structure Intake where
  hierarchy : Hierarchy
  table : LifetimeTable
  entry : Entry

namespace Analysis

open ApiUsage

variable {config : AnalysisConfig}

/-- The analysis after bodies are taken in. -/
def taken (config : AnalysisConfig) (intakes : List Intake) : Analysis :=
  intakes.foldl
    (fun (a : Analysis) i =>
      a.enter ⟨i.hierarchy, i.table, config⟩ i.entry.isPrimary i.entry.body) ∅

theorem taken_concat (intakes : List Intake) (i : Intake) :
    taken config (intakes ++ [i])
      = (taken config intakes).enter ⟨i.hierarchy, i.table, config⟩ i.entry.isPrimary
          i.entry.body := by
  unfold taken
  rw [List.foldl_append]
  rfl

theorem reachable_taken (intakes : List Intake) : (taken config intakes).graph.Reachable := by
  induction intakes using List.reverseRecOn with
  | nil => exact CallGraph.reachable_empty
  | append_singleton intakes i ih =>
      rw [taken_concat]
      exact ih.recordBody i.entry.body

/-- The uses of what is taken in. -/
def usesTaken (intakes : List Intake) : List Use :=
  intakes.flatMap fun i => usesOf i.table i.hierarchy i.entry.isPrimary i.entry.body

/-- What is noted are the uses of all bodies, each with what was at hand for it. -/
theorem reflects_taken (intakes : List Intake) :
    Reflects (taken config intakes).usage (usesTaken intakes) := by
  induction intakes using List.reverseRecOn with
  | nil => exact reflects_empty
  | append_singleton intakes i ih =>
      rw [taken_concat]
      unfold usesTaken
      rw [List.flatMap_append, List.flatMap_singleton]
      exact ih.noteBody i.entry.isPrimary i.entry.body

/-- The version is read if some body does so. -/
theorem readsVersion_taken (intakes : List Intake) :
    (taken config intakes).usage.readsVersion = true
      ↔ ∃ i ∈ intakes, config.markers.readsVersion i.entry.body = true := by
  induction intakes using List.reverseRecOn with
  | nil =>
      constructor
      · intro hreads
        cases hreads
      · rintro ⟨_, hbody, _⟩
        cases hbody
  | append_singleton intakes i ih =>
      rw [taken_concat]
      show ((taken config intakes).usage.noteBody _ _ _ _ _).readsVersion = true ↔ _
      rw [readsVersion_noteBody, Bool.or_eq_true, ih, exists_mem_concat]

end Analysis

/-! ## §4. Entering bodies. -/

/-- A unit of code: its bodies, and whether it is the main unit. -/
structure CodeUnit where
  isPrimary : Bool
  bodies : List Body

/-- A body that is entered with what is known beforehand. -/
def AnalysisInputs.intake (inputs : AnalysisInputs) (entry : Entry) : Intake :=
  ⟨inputs.hierarchy, inputs.table, entry⟩

namespace Analysis

open ApiUsage

variable (inputs : AnalysisInputs)

/-- The analysis after bodies are entered. -/
def entered (entries : List Entry) : Analysis :=
  entries.foldl (fun (a : Analysis) entry => a.enter inputs entry.isPrimary entry.body) ∅

/-- What is entered of the units: their bodies that are not skipped. -/
def entriesOf (config : AnalysisConfig) (units : List CodeUnit) : List Entry :=
  units.flatMap fun u =>
    (u.bodies.filter fun body => !config.excludes body.signature).map (⟨u.isPrimary, ·⟩)

/-- The analysis of all units. -/
def run (units : List CodeUnit) : Analysis :=
  (units.foldl (fun (a : Analysis) u => a.enterUnit inputs u.isPrimary u.bodies) ∅).finish

theorem entered_concat (entries : List Entry) (entry : Entry) :
    entered inputs (entries ++ [entry])
      = (entered inputs entries).enter inputs entry.isPrimary entry.body := by
  unfold entered
  rw [List.foldl_append]
  rfl

/-- To enter bodies is to take them in with one hierarchy and one table. -/
theorem entered_eq_taken (entries : List Entry) :
    entered inputs entries = taken inputs.config (entries.map inputs.intake) := by
  unfold entered taken
  rw [List.foldl_map]
  rfl

/-- To analyse units is to enter their bodies and to finish. -/
theorem run_eq (units : List CodeUnit) :
    run inputs units = (entered inputs (entriesOf inputs.config units)).finish := by
  unfold run entered entriesOf
  simp only [List.foldl_flatMap, List.foldl_map]
  rfl

/-- A bundle is analysed unit by unit. -/
theorem analyze_eq_run (b : Bundle) :
    b.analyze inputs
      = run inputs (⟨true, b.primary.bodies⟩ :: b.secondary.map fun u => ⟨false, u.bodies⟩) := by
  unfold Bundle.analyze run
  rw [List.foldl_cons, List.foldl_map]

variable {inputs}

theorem graph_entered (entries : List Entry) :
    (entered inputs entries).graph
      = CallGraph.recordAll ∅ inputs.hierarchy.subtypes inputs.config.markers
          (entries.map Entry.body) := by
  induction entries using List.reverseRecOn with
  | nil => rfl
  | append_singleton entries entry ih =>
      rw [entered_concat, List.map_append, List.map_singleton, CallGraph.recordAll_concat, ← ih]
      rfl

theorem reachable_entered (entries : List Entry) : (entered inputs entries).graph.Reachable := by
  rw [graph_entered]
  exact CallGraph.reachable_empty.recordAll _

/-- The uses of the bodies entered. -/
def usesOfAll (inputs : AnalysisInputs) (entries : List Entry) : List Use :=
  entries.flatMap fun entry =>
    usesOf inputs.table inputs.hierarchy entry.isPrimary entry.body

/-- What is noted are the uses of all bodies. -/
theorem reflects_entered (entries : List Entry) :
    Reflects (entered inputs entries).usage (usesOfAll inputs entries) := by
  have huses : usesOfAll inputs entries = usesTaken (entries.map inputs.intake) := by
    unfold usesOfAll usesTaken
    rw [List.flatMap_map]
    rfl
  rw [entered_eq_taken, huses]
  exact reflects_taken _

theorem mem_usesOfAll {entries : List Entry} {use : Use} :
    use ∈ usesOfAll inputs entries
      ↔ ∃ entry ∈ entries, use.isPrimary = entry.isPrimary ∧ use.caller = entry.body.signature
          ∧ entry.body.Invokes use.invoked
          ∧ platformMethod? inputs.table inputs.hierarchy use.invoked = some use.api := by
  unfold usesOfAll
  simp only [List.mem_flatMap, mem_usesOf]

/-- The version is read if some body does so. -/
theorem readsVersion_entered (entries : List Entry) :
    (entered inputs entries).usage.readsVersion = true
      ↔ ∃ body ∈ entries.map Entry.body, inputs.config.markers.readsVersion body = true := by
  rw [entered_eq_taken, readsVersion_taken]
  simp [AnalysisInputs.intake]

end Analysis

/-! ## §5. Bodies as examples. -/

/-- A body that calls a method of the application from release 26 on. -/
def notifySwitch : Body where
  signature := "<app.Main: void run()>"
  steps := #[
    ⟨.assign "sdk" (.field versionNumberField), .next⟩,
    ⟨.branch ⟨.localVar "sdk", .lt, .int 26⟩ "end", .branch 3⟩,
    ⟨.invoke ⟨.static, "<app.Notifier: void show()>", [], false⟩, .next⟩,
    ⟨.ret none, .stop⟩]
  target_lt := by decide
  flow_fits := by decide

/-- The body of the called method, which uses one of the platform. -/
def notifier : Body where
  signature := "<app.Notifier: void show()>"
  steps := #[
    ⟨.invoke ⟨.virtual, "<android.app.Channel: void open()>", [], false⟩, .next⟩,
    ⟨.ret none, .stop⟩]
  target_lt := by decide
  flow_fits := by decide

/-- What is known beforehand: the lifetime of the method of the platform. -/
def channelInputs : AnalysisInputs where
  hierarchy := ∅
  table := (∅ : LifetimeTable).insert "<android.app.Channel: void open()>" (.known 26) (.known 34)

end ApiGuard
