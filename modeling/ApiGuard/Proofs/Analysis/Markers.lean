/-
  ApiGuard.Proofs.Analysis.Markers
  ────────────────────────────────
  An analysis finds no guard without a marker.

  A guarded edge starts from a method of which some body was entered whose text has a
  marker.  If the only markers are fields of the platform version, that body reads the
  version, and then the analysis knows that the application does:

      justified_taken       tokens are on edges from marked methods only
      guarded_is_marked     so guarded edges are of marked bodies
-/
import ApiGuard.Proofs.Analysis.Operations
import ApiGuard.Proofs.Guard.Markers

namespace ApiGuard.Analysis

variable {config : AnalysisConfig}

/-- Some body of the method is taken in whose text has a marker. -/
def IsMarked (config : AnalysisConfig) (intakes : List Intake) (method : String) : Prop :=
  ∃ i ∈ intakes, method = i.entry.body.signature
    ∧ config.markers.OccurIn i.entry.body.render

theorem justified_taken (intakes : List Intake) :
    (taken config intakes).graph.Justified (IsMarked config intakes) := by
  induction intakes using List.reverseRecOn with
  | nil => exact CallGraph.justified_empty
  | append_singleton intakes i ih =>
      rw [taken_concat]
      -- methods that are marked stay so when one more body is taken in
      have hbefore := ih.mono fun method hmarked =>
        (exists_mem_concat (a := i) (P := fun i => method = i.entry.body.signature
          ∧ config.markers.OccurIn i.entry.body.render)).mpr (.inl hmarked)
      exact hbefore.recordBody (reachable_taken intakes).wellFormed fun hoccurs =>
        exists_mem_concat.mpr (.inr ⟨rfl, hoccurs⟩)

/-- Whatever operations an analysis goes through, each guarded edge that is stored in the
end starts from a method of which a body was taken in whose text mentions a marker.

If there are no markers but fields of the platform version and some edge is guarded, then
the analysis has found that the version is read. -/
theorem guarded_is_marked (config : AnalysisConfig) (ops : List Operation) :
    (∀ e ∈ (performed config ops).finish.graph.storedEdges, e.isGuarded = true →
      ∃ i ∈ intakesOf config ops, e.source = i.entry.body.signature
        ∧ ∃ marker ∈ config.markers.versionFields ++ config.markers.featureChecks,
            Text.mentions i.entry.body.render marker = true)
    ∧ (config.markers.featureChecks = [] →
      (∃ e ∈ (performed config ops).finish.graph.storedEdges, e.isGuarded = true) →
      (performed config ops).finish.usage.readsVersion = true) := by
  have hreachable : (performed config ops).graph.Reachable := by
    rw [performed_eq]
    exact reachable_taken _
  have hjustified : (performed config ops).finish.graph.Justified
      (IsMarked config (intakesOf config ops)) := by
    refine CallGraph.Justified.linkConstructors ?_ hreachable.indexed
    rw [performed_eq]
    exact justified_taken _
  have hmarked : ∀ e ∈ (performed config ops).finish.graph.storedEdges, e.isGuarded = true →
      IsMarked config (intakesOf config ops) e.source :=
    fun _ he => hjustified.of_isGuarded (hreachable.apply .linkConstructors).wellFormed he
  refine ⟨hmarked, fun hchecks hguarded => ?_⟩
  obtain ⟨e, he, hguard⟩ := hguarded
  obtain ⟨i, hi, _, hoccurs⟩ := hmarked e he hguard
  show (performed config ops).usage.readsVersion = true
  rw [performed_eq, readsVersion_taken]
  -- the marker is not a check, as there are none
  refine ⟨i, hi, (GuardMarkers.occurIn_iff.mp hoccurs).resolve_right ?_⟩
  unfold GuardMarkers.marksFeature
  rw [hchecks]
  exact Bool.false_ne_true

/-- Only fields of the platform version are markers. -/
def versionConfig : AnalysisConfig := { markers := { featureChecks := [] } }

/-- The switch is entered, and the notifier in a unit. -/
def switchOperations : List Operation :=
  [.enter ∅ channelInputs.table true notifySwitch,
    .enterUnit ∅ channelInputs.table ⟨false, [notifier]⟩]

/-- The call of the notifier is guarded, so the switch has a marker and the version is
read. -/
theorem guarded_is_marked_switch :
    versionConfig.markers.featureChecks = []
    ∧ (∃ e ∈ (performed versionConfig switchOperations).finish.graph.storedEdges,
        e.isGuarded = true ∧ e.source = notifySwitch.signature)
    ∧ (∃ i ∈ intakesOf versionConfig switchOperations,
        i.entry.body.signature = notifySwitch.signature
        ∧ ∃ marker ∈ versionConfig.markers.versionFields,
            Text.mentions i.entry.body.render marker = true)
    ∧ (performed versionConfig switchOperations).finish.usage.readsVersion = true := by
  obtain ⟨hmarked, hreads⟩ := guarded_is_marked versionConfig switchOperations
  have hcalls : Walk.callVisits versionConfig.markers notifySwitch
      = [⟨2, .ofList [.negated "sdk < 26"]⟩] := by
    cbv
  have hcalls' : Walk.callVisits versionConfig.markers notifier = [⟨0, ∅⟩] := by
    cbv
  have hintakes : intakesOf versionConfig switchOperations
      = [⟨∅, channelInputs.table, true, notifySwitch⟩,
          ⟨∅, channelInputs.table, false, notifier⟩] := by
    cbv
  have hgraph : (performed versionConfig switchOperations).finish.graph
      = ((CallGraph.recordVisits ∅ (∅ : Hierarchy).subtypes notifySwitch
          [⟨2, .ofList [.negated "sdk < 26"]⟩]).recordVisits (∅ : Hierarchy).subtypes
            notifier [⟨0, ∅⟩]).linkConstructors.1 := by
    rw [performed_eq, hintakes, ← hcalls, ← hcalls', ← CallGraph.recordBody_eq_callVisits,
      ← CallGraph.recordBody_eq_callVisits]
    rfl
  have hguarded : ∃ e ∈ (performed versionConfig switchOperations).finish.graph.storedEdges,
      e.isGuarded = true ∧ e.source = notifySwitch.signature := by
    rw [hgraph]
    decide +kernel
  obtain ⟨e, he, hguard, hsource⟩ := hguarded
  obtain ⟨i, hi, hsignature, marker, hmarker, hmentions⟩ := hmarked e he hguard
  refine ⟨rfl, ⟨e, he, hguard, hsource⟩, ⟨i, hi, hsignature.symm.trans hsource, marker, ?_,
    hmentions⟩, hreads rfl ⟨e, he, hguard⟩⟩
  exact hmarker

end ApiGuard.Analysis
