/-
  ApiGuard.Proofs.Guard.Coverage
  ──────────────────────────────
  The walk of a body comes to each call that control reaches, and once.

  Whichever of several entries, loops and merging ways comes to a statement
  first, it is visited from there and not again.  So the edges stored for a body
  are known without walking it:

      Explores.mem_places_iff_isReached   visited are the places reached
      isStored_recordBody                 stored are the edges to all methods that
                                          the calls reached may run
      recordBody_covers                   both, and what each call adds
-/
import ApiGuard.Proofs.Guard.Recording

namespace ApiGuard

namespace Walk

variable {markers : GuardMarkers} {body : Body}

/-! ## §1. Places visited. -/

theorem mem_places_iff {i : Nat} : i ∈ places body ↔ i < body.size := by
  unfold places
  rw [SortedSet.mem_ofList, List.mem_range]

/-- As long as nothing is visited any step of control keeps to unseen places. -/
theorem flowsIn_places {i j : Nat} (h : Relation.ReflTransGen body.Flows i j) :
    Relation.ReflTransGen (FlowsIn body (places body)) i j :=
  Relation.ReflTransGen.mono
    (fun _ _ hstep => ⟨hstep, mem_places_iff.mpr (Body.lt_size_of_mem_successors hstep)⟩) _ _ h

/-- To explore the entries is to visit what control reaches from them. -/
theorem Explores.mem_places_iff_isReached {left : SortedSet Nat} {visits : List Visit}
    (h : Explores markers body (places body) (body.entries.map Frame.entry) visits left)
    {i : Nat} : i ∈ visits.map Visit.place ↔ body.IsReached i := by
  constructor
  · intro hi
    obtain ⟨v, hv, rfl⟩ := List.mem_map.mp hi
    obtain ⟨f, hf, _, hway⟩ := h.way hv
    obtain ⟨entry, hentry, rfl⟩ := List.mem_map.mp hf
    exact ⟨entry, hentry, Relation.ReflTransGen.mono (fun _ _ hstep => hstep.1) _ _ hway⟩
  · intro hreached
    obtain ⟨entry, hentry, hway⟩ := hreached
    have hnew : entry ∈ places body := mem_places_iff.mpr (Body.lt_size_of_mem_entries hentry)
    exact h.mem_places_of_way (List.mem_map_of_mem hentry) hnew (flowsIn_places hway)

/-! ## §2. Visits of calls. -/

/-- The visits of statements with a call. -/
def callVisits (markers : GuardMarkers) (body : Body) : List Visit :=
  (visits markers body).filter fun v => (body.call? v.place).isSome

theorem filter_call_properVisits (l : List Visit) :
    (properVisits body l).filter (fun v => (body.call? v.place).isSome)
      = l.filter fun v => (body.call? v.place).isSome := by
  unfold properVisits
  rw [List.filter_filter]
  refine List.filter_congr fun v _ => ?_
  cases hret : isReturn body v.place with
  | true => rw [Body.call?_eq_none_of_isReturn hret]; rfl
  | false => simp

/-- The walk visits the same calls as the exploration. -/
theorem Explores.callVisits_eq {left : SortedSet Nat} {visits : List Visit}
    (h : Explores markers body (places body) (body.entries.map Frame.entry) visits left) :
    callVisits markers body = visits.filter fun v => (body.call? v.place).isSome := by
  unfold callVisits
  rw [← filter_call_properVisits, h.visits_eq, filter_call_properVisits]

/-- No call is visited twice. -/
theorem nodup_callVisits (markers : GuardMarkers) (body : Body) :
    ((callVisits markers body).map Visit.place).Nodup := by
  obtain ⟨visits, left, h⟩ :=
    exists_explores markers body (places body) (body.entries.map Frame.entry)
  rw [h.callVisits_eq]
  exact h.nodup.sublist (List.filter_sublist.map _)

/-- The calls visited are those that control reaches. -/
theorem mem_places_callVisits {i : Nat} :
    i ∈ (callVisits markers body).map Visit.place
      ↔ body.IsReached i ∧ ∃ call, body.call? i = some call := by
  obtain ⟨visits, left, h⟩ :=
    exists_explores markers body (places body) (body.entries.map Frame.entry)
  rw [h.callVisits_eq, ← h.mem_places_iff_isReached, ← Option.isSome_iff_exists]
  simp only [List.mem_map, List.mem_filter]
  constructor
  · intro hvisit
    obtain ⟨v, ⟨hv, hcall⟩, rfl⟩ := hvisit
    exact ⟨⟨v, hv, rfl⟩, hcall⟩
  · intro hvisit
    obtain ⟨⟨v, hv, rfl⟩, hcall⟩ := hvisit
    exact ⟨v, ⟨hv, hcall⟩, rfl⟩

end Walk

namespace CallGraph

variable {g : CallGraph} {subtypes : Subtyping} {markers : GuardMarkers} {body : Body}

/-! ## §3. Edges stored for a body. -/

/-- Only visits of calls count. -/
theorem recordBody_eq_callVisits (g : CallGraph) (subtypes : Subtyping)
    (markers : GuardMarkers) (body : Body) :
    g.recordBody subtypes markers body
      = g.recordVisits subtypes body (Walk.callVisits markers body) := by
  rw [recordBody_eq_recordVisits]
  unfold Walk.callVisits recordVisits
  rw [List.foldl_filter]
  congr 1
  funext h v
  unfold recordAt
  cases body.call? v.place <;> rfl

/-- Stored are the edges to all methods that the calls reached may run, besides
those stored before. -/
theorem WellFormed.isStored_recordBody (h : g.WellFormed) {a : Arc} :
    (g.recordBody subtypes markers body).IsStored a
      ↔ g.IsStored a ∨ (a.source = body.signature ∧ a.isValid = true
          ∧ ∃ i, body.IsReached i ∧ body.MayRunAt subtypes i a.target) := by
  have hvisits : (∃ v ∈ Walk.callVisits markers body, body.MayRunAt subtypes v.place a.target)
      ↔ ∃ i, body.IsReached i ∧ body.MayRunAt subtypes i a.target := by
    constructor
    · intro hvisit
      obtain ⟨v, hv, hrun⟩ := hvisit
      exact ⟨v.place, (Walk.mem_places_callVisits.mp (List.mem_map_of_mem hv)).1, hrun⟩
    · intro hplace
      obtain ⟨i, hreached, hrun⟩ := hplace
      obtain ⟨call, hcall, _⟩ := id hrun
      obtain ⟨v, hv, rfl⟩ :=
        List.mem_map.mp (Walk.mem_places_callVisits.mpr ⟨hreached, call, hcall⟩)
      exact ⟨v, hv, hrun⟩
  rw [recordBody_eq_callVisits, isStored_recordVisits _ h, hvisits]

/-- Each call that control reaches is visited once, and no other is.  It stores
the edges to all methods that it may run, as far as their ends differ and are not
empty, and puts its condition on them.  Edges from other methods stay as they
were, and the markers have no say in what is stored. -/
theorem recordBody_covers (hg : g.Reachable)
    (hnone : ∀ target, ¬ g.IsStored ⟨body.signature, target⟩) :
    (g.recordBody subtypes markers body
        = g.recordVisits subtypes body (Walk.callVisits markers body)
      ∧ ((Walk.callVisits markers body).map Visit.place).Nodup
      ∧ ∀ i, i ∈ (Walk.callVisits markers body).map Visit.place
          ↔ body.IsReached i ∧ ∃ call, body.call? i = some call)
    ∧ (∀ target, (g.recordBody subtypes markers body).IsStored ⟨body.signature, target⟩
        ↔ body.signature ≠ "" ∧ target ≠ "" ∧ body.signature ≠ target
          ∧ ∃ i call, body.IsReached i ∧ body.call? i = some call
            ∧ (target = call.method
              ∨ (call.kind.isDispatched = true ∧ call.isPrivate = false
                ∧ target ∈ overridesOf subtypes call.method)))
    ∧ (∀ v ∈ Walk.callVisits markers body, ∀ target, body.MayRunAt subtypes v.place target →
        v.condition ∈ (g.recordBody subtypes markers body).conditionsAt
          ⟨body.signature, target⟩)
    ∧ (∀ a : Arc, a.source ≠ body.signature →
        (g.recordBody subtypes markers body).numbers.find? a = g.numbers.find? a
          ∧ (g.recordBody subtypes markers body).conditionsAt a = g.conditionsAt a
          ∧ ((g.recordBody subtypes markers body).IsStored a ↔ g.IsStored a))
    ∧ (∀ (markers' : GuardMarkers) (a : Arc),
        (g.recordBody subtypes markers' body).IsStored a
          ↔ (g.recordBody subtypes markers body).IsStored a) := by
  have h := hg.wellFormed
  refine ⟨⟨recordBody_eq_callVisits g subtypes markers body,
    Walk.nodup_callVisits markers body, fun i => Walk.mem_places_callVisits⟩, ?_, ?_, ?_, ?_⟩
  · -- the edges stored, with what a call may run written out
    intro target
    have hrun : ∀ i, body.MayRunAt subtypes i target ↔ ∃ call, body.call? i = some call
        ∧ (target = call.method
          ∨ (call.kind.isDispatched = true ∧ call.isPrivate = false
            ∧ target ∈ overridesOf subtypes call.method)) := by
      intro i
      unfold Body.MayRunAt Invocation.MayRun Invocation.isOverridable
      simp only [Bool.and_eq_true, Bool.not_eq_true', and_assoc]
    rw [h.isStored_recordBody]
    simp only [hnone target, false_or, true_and, hrun]
    unfold Arc.isValid
    simp only [ne_eq, Bool.and_eq_true, decide_eq_true_eq, and_assoc]
    grind
  · intro v hv target hrun
    rw [recordBody_eq_callVisits]
    exact mem_conditionsAt_of_visit h hv hrun
  · intro a hne
    refine ⟨?_, ?_, ?_⟩
    · rw [recordBody_eq_callVisits]
      exact find?_recordVisits_of_ne hne _
    · rw [recordBody_eq_callVisits]
      exact conditionsAt_recordVisits_of_ne h hne _
    · rw [h.isStored_recordBody]
      exact or_iff_left fun hnew => hne hnew.1
  · -- no marker occurs in what is stored
    intro markers' a
    rw [h.isStored_recordBody, h.isStored_recordBody]

/-- The subclass of the listener is called, and the body does not call itself. -/
theorem recordBody_covers_releaseSwitch :
    Reachable ∅
    ∧ (∀ target, ¬ (∅ : CallGraph).IsStored ⟨releaseSwitch.signature, target⟩)
    ∧ ((∅ : CallGraph).recordBody listenerSubtypes {} releaseSwitch).IsStored
        ⟨releaseSwitch.signature, "<app.Button: void on()>"⟩
    ∧ ¬ ((∅ : CallGraph).recordBody listenerSubtypes {} releaseSwitch).IsStored
        ⟨releaseSwitch.signature, releaseSwitch.signature⟩ := by
  have hnone : ∀ target, ¬ (∅ : CallGraph).IsStored ⟨releaseSwitch.signature, target⟩ := by
    intro target hstored
    obtain ⟨e, he, _⟩ := hstored
    cases he
  have hfirst : releaseSwitch.Flows 0 1 := (by decide : 1 ∈ releaseSwitch.successors 0)
  have hsecond : releaseSwitch.Flows 1 2 := (by decide : 2 ∈ releaseSwitch.successors 1)
  have hreached : releaseSwitch.IsReached 2 :=
    ⟨0, by decide, (Relation.ReflTransGen.single hfirst).tail hsecond⟩
  obtain ⟨_, hstored, _⟩ := recordBody_covers reachable_empty hnone
  refine ⟨reachable_empty, hnone, (hstored _).mpr ?_, fun hself => ?_⟩
  · exact ⟨by decide, by decide, by decide, 2, _, hreached, rfl,
      .inr ⟨rfl, rfl, by decide +kernel⟩⟩
  · exact ((hstored _).mp hself).2.2.1 rfl

end CallGraph

end ApiGuard
