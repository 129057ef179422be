/-
  ApiGuard.Proofs.Guard.Overrides
  ───────────────────────────────
  Where the conditions on the edges to overrides come from.

  A dispatched call puts on the edges to overrides all conditions that the edge to its
  declared method has by then.  These may be conditions of other calls of that method,
  and so a condition is handed on from edge to edge by the calls that are visited one
  after the other (`HandedOn`):

      mem_conditionsAt_iff_handedOn   the conditions on each edge, by such calls
      recordBody_overrides            no call hands on the condition of one that could
                                      not run the override itself, if all calls that
                                      may run a method dispatch it alike
      exact_call_guards_override      a call of the superclass and a dispatched one do
                                      not
-/
import ApiGuard.Proofs.Guard.Coverage

namespace ApiGuard

/-! ## §1. Handing on conditions. -/

/-- The condition comes to the edge to a method by the given visits: the first is under
it and its call may run a method, and each further one is of a dispatched call that hands
on what the edge to its declared method has. -/
inductive HandedOn (subtypes : Subtyping) (body : Body) :
    List Visit → PathCondition → String → Prop where
  | first {v : Visit} {method : String} (hrun : body.MayRunAt subtypes v.place method) :
      HandedOn subtypes body [v] v.condition method
  | next {before : List Visit} {c : PathCondition} {v : Visit} {call : Invocation}
      {method : String} (hbefore : HandedOn subtypes body before c call.method)
      (hcall : body.call? v.place = some call) (hoverridable : call.isOverridable = true)
      (hmethod : method ∈ overridesOf subtypes call.method) :
      HandedOn subtypes body (before ++ [v]) c method

/-- Whichever call of the body may run the declared method of a dispatched call may run
its overrides too. -/
def Body.DispatchesAlike (body : Body) (subtypes : Subtyping) : Prop :=
  ∀ i j call call', body.IsReached i → body.call? i = some call →
    body.IsReached j → body.call? j = some call' → call'.isOverridable = true →
    call.MayRun subtypes call'.method →
    ∀ method ∈ overridesOf subtypes call'.method, call.MayRun subtypes method

section

variable {subtypes : Subtyping} {body : Body}

theorem not_handedOn_nil {c : PathCondition} {method : String} :
    ¬ HandedOn subtypes body [] c method := by
  intro h
  generalize hvisits : ([] : List Visit) = visits at h
  cases h with
  | first => cases hvisits
  | next => exact List.append_ne_nil_of_right_ne_nil _ (List.cons_ne_nil _ _) hvisits.symm

/-- The last of the visits either is the only one or hands the condition on. -/
theorem handedOn_concat_iff {before : List Visit} {v : Visit} {c : PathCondition}
    {method : String} :
    HandedOn subtypes body (before ++ [v]) c method
      ↔ (before = [] ∧ body.MayRunAt subtypes v.place method ∧ c = v.condition)
        ∨ ∃ call, body.call? v.place = some call ∧ call.isOverridable = true
          ∧ method ∈ overridesOf subtypes call.method
          ∧ HandedOn subtypes body before c call.method := by
  constructor
  · intro h
    generalize hvisits : before ++ [v] = visits at h
    cases h with
    | first hrun =>
        obtain ⟨rfl, rfl⟩ := List.append_singleton_inj.mp (hvisits.trans (List.nil_append _).symm)
        exact .inl ⟨rfl, hrun, rfl⟩
    | next hbefore hcall hoverridable hmethod =>
        obtain ⟨rfl, rfl⟩ := List.append_singleton_inj.mp hvisits
        exact .inr ⟨_, hcall, hoverridable, hmethod, hbefore⟩
  · rintro (⟨rfl, hrun, rfl⟩ | ⟨call, hcall, hoverridable, hmethod, hbefore⟩)
    · exact .first hrun
    · exact .next hbefore hcall hoverridable hmethod

/-- If the body dispatches alike, the call under whose condition the first visit is may run
all methods that the condition comes to. -/
theorem HandedOn.exists_visit (halike : body.DispatchesAlike subtypes) {visits : List Visit}
    {c : PathCondition} {method : String} (h : HandedOn subtypes body visits c method)
    (hreached : ∀ v ∈ visits, body.IsReached v.place) :
    ∃ v ∈ visits, v.condition = c ∧ body.MayRunAt subtypes v.place method := by
  induction h with
  | @first v method hrun => exact ⟨v, List.mem_singleton_self v, rfl, hrun⟩
  | @next before c w call method _ hcall hoverridable hmethod ih =>
      obtain ⟨v, hv, hcondition, call', hcall', hrun⟩ :=
        ih fun v hv => hreached v (List.mem_append_left _ hv)
      have hplace := hreached v (List.mem_append_left _ hv)
      have hplace' := hreached w (List.mem_append_right _ List.mem_cons_self)
      exact ⟨v, List.mem_append_left _ hv, hcondition, call', hcall',
        halike _ _ _ _ hplace hcall' hplace' hcall hoverridable hrun method hmethod⟩

end

namespace CallGraph

variable {g : CallGraph} {subtypes : Subtyping} {markers : GuardMarkers} {body : Body}

/-! ## §2. The conditions on edges. -/

/-- A sublist leaves the last element out or ends with it. -/
theorem exists_sublist_concat_iff {P : List Visit → Prop} {visits : List Visit} {v : Visit} :
    (∃ route, route.Sublist (visits ++ [v]) ∧ P route)
      ↔ (∃ route, route.Sublist visits ∧ P route)
        ∨ ∃ route, route.Sublist visits ∧ P (route ++ [v]) := by
  constructor
  · rintro ⟨route, hsub, hroute⟩
    obtain ⟨first, last, rfl, hfirst, hlast⟩ := List.sublist_append_iff.mp hsub
    rcases List.sublist_singleton.mp hlast with rfl | rfl
    · rw [List.append_nil] at hroute
      exact .inl ⟨first, hfirst, hroute⟩
    · exact .inr ⟨first, hfirst, hroute⟩
  · rintro (⟨route, hsub, hroute⟩ | ⟨route, hsub, hroute⟩)
    · exact ⟨route, hsub.trans (List.sublist_append_left visits [v]), hroute⟩
    · exact ⟨route ++ [v], hsub.append (List.Sublist.refl [v]), hroute⟩

/-- If no edge from the method has a condition before, each has those that come to it by
some of the visits, in their order. -/
theorem mem_conditionsAt_iff_handedOn (h : g.WellFormed)
    (hnone : ∀ target, g.conditionsAt ⟨body.signature, target⟩ = ∅) (visits : List Visit) :
    ∀ {c : PathCondition} {target : String},
      c ∈ (g.recordVisits subtypes body visits).conditionsAt ⟨body.signature, target⟩
        ↔ ∃ route, route.Sublist visits ∧ HandedOn subtypes body route c target := by
  induction visits using List.reverseRecOn with
  | nil =>
      intro c target
      show c ∈ g.conditionsAt _ ↔ _
      rw [hnone]
      constructor
      · exact fun hc => absurd hc (SortedSet.not_mem_empty c)
      · rintro ⟨_, hsub, hhanded⟩
        rw [List.sublist_nil.mp hsub] at hhanded
        exact absurd hhanded not_handedOn_nil
  | append_singleton visits v ih =>
      intro c target
      rw [recordVisits_append]
      show c ∈ ((g.recordVisits subtypes body visits).recordAt subtypes body v.place
        v.condition).conditionsAt _ ↔ _
      rw [(h.recordVisits visits).mem_conditionsAt_recordAt, ih]
      rw [exists_sublist_concat_iff]
      simp only [true_and, ih, handedOn_concat_iff]
      -- what comes by the last visit is its own condition, or was on the edge that it reads
      refine or_congr_right ⟨?_, ?_⟩
      · rintro (⟨hrun, rfl⟩ | ⟨call, hcall, hoverridable, hmethod, route, hsub, hroute⟩)
        · exact ⟨[], List.nil_sublist visits, .inl ⟨rfl, hrun, rfl⟩⟩
        · exact ⟨route, hsub, .inr ⟨call, hcall, hoverridable, hmethod, hroute⟩⟩
      · rintro ⟨route, hsub, ⟨_, hrun, hc⟩ | ⟨call, hcall, hoverridable, hmethod, hroute⟩⟩
        · exact .inl ⟨hrun, hc⟩
        · exact .inr ⟨call, hcall, hoverridable, hmethod, route, hsub, hroute⟩

/-! ## §3. Overrides. -/

/-- After recording a body, the conditions on an edge from its method are those that come
there by some of the calls visited, in their order: a dispatched call hands on to the
overrides what any call before it has put on the edge to the declared method.

If whichever call may run the declared method of a dispatched call may run its overrides
too, each of the conditions is one under which a call is visited that may run the method
to which the edge leads. -/
theorem recordBody_overrides (hg : g.Reachable)
    (hnone : ∀ target, g.conditionsAt ⟨body.signature, target⟩ = ∅) :
    (∀ e ∈ (g.recordBody subtypes markers body).storedEdges, e.source = body.signature →
      ∀ c, c ∈ e.conditions ↔ ∃ route, route.Sublist (Walk.callVisits markers body)
        ∧ HandedOn subtypes body route c e.target)
    ∧ (body.DispatchesAlike subtypes →
      ∀ e ∈ (g.recordBody subtypes markers body).storedEdges, e.source = body.signature →
        ∀ c ∈ e.conditions, ∃ v ∈ Walk.callVisits markers body, v.condition = c
          ∧ ∃ call, body.call? v.place = some call
            ∧ (e.target = call.method
              ∨ (call.kind.isDispatched = true ∧ call.isPrivate = false
                ∧ e.target ∈ overridesOf subtypes call.method))) := by
  have h := hg.wellFormed
  have hexact : ∀ e ∈ (g.recordBody subtypes markers body).storedEdges,
      e.source = body.signature → ∀ c, c ∈ e.conditions
        ↔ ∃ route, route.Sublist (Walk.callVisits markers body)
          ∧ HandedOn subtypes body route c e.target := by
    intro e he hsource c
    rw [recordBody_eq_callVisits] at he
    rw [← (h.recordVisits _).conditionsAt_toArc he, ← mem_conditionsAt_iff_handedOn h hnone,
      ← hsource]
  refine ⟨hexact, fun halike e he hsource c hc => ?_⟩
  obtain ⟨route, hsub, hroute⟩ := (hexact e he hsource c).mp hc
  -- the calls on the route are visited, so that control reaches them
  have hreached : ∀ v ∈ route, body.IsReached v.place := fun v hv =>
    (Walk.mem_places_callVisits.mp (List.mem_map_of_mem (hsub.subset hv))).1
  obtain ⟨v, hv, hcondition, call, hcall, hrun⟩ := hroute.exists_visit halike hreached
  refine ⟨v, hsub.subset hv, hcondition, call, hcall, ?_⟩
  unfold Invocation.MayRun Invocation.isOverridable at hrun
  simpa only [Bool.and_eq_true, Bool.not_eq_true', and_assoc] using hrun

/-- Of the two calls of this body only the dispatched one may run the declared method. -/
theorem dispatchesAlike_releaseSwitch : releaseSwitch.DispatchesAlike listenerSubtypes := by
  have hcalls : ∀ i call, releaseSwitch.call? i = some call →
      call = ⟨.interface, "<app.Listener: void on()>", [], false⟩
        ∨ call = ⟨.static, "<app.Legacy: void on()>", [], false⟩ := by
    intro i call hcall
    match i, hcall with
    | 2, hcall => cases hcall; exact .inl rfl
    | 4, hcall => cases hcall; exact .inr rfl
    | 0, hcall | 1, hcall | 3, hcall | 5, hcall | _ + 6, hcall => cases hcall
  intro i j call call' _ hcall _ hcall' hoverridable hrun method hmethod
  rcases hcalls j call' hcall' with rfl | rfl
  · rcases hcalls i call hcall with rfl | rfl
    · exact .inr ⟨hoverridable, hmethod⟩
    · -- the static call does not run the listener
      rcases hrun with hsame | ⟨hstatic, _⟩
      · exact absurd hsame (by decide)
      · cases hstatic
  · cases hoverridable

/-- The listener is dispatched and no other call may run its method, so the subclass gets
the condition of the dispatched call and no other. -/
theorem recordBody_overrides_releaseSwitch :
    Reachable ∅
    ∧ (∀ target, (∅ : CallGraph).conditionsAt ⟨releaseSwitch.signature, target⟩ = ∅)
    ∧ releaseSwitch.DispatchesAlike listenerSubtypes
    ∧ (∃ e ∈ ((∅ : CallGraph).recordBody listenerSubtypes {} releaseSwitch).storedEdges,
        e.source = releaseSwitch.signature ∧ e.target = "<app.Button: void on()>")
    ∧ ∀ e ∈ ((∅ : CallGraph).recordBody listenerSubtypes {} releaseSwitch).storedEdges,
        e.source = releaseSwitch.signature → e.target = "<app.Button: void on()>" →
        ∀ c ∈ e.conditions, c = .ofList [.negated "sdk < 26"] := by
  have hnone : ∀ target,
      (∅ : CallGraph).conditionsAt ⟨releaseSwitch.signature, target⟩ = ∅ := fun _ => rfl
  have hvisits : Walk.callVisits {} releaseSwitch
      = [⟨4, .ofList [.holds "sdk < 26"]⟩, ⟨2, .ofList [.negated "sdk < 26"]⟩] := by
    cbv
  have hsome : ∃ e ∈ ((∅ : CallGraph).recordBody listenerSubtypes {} releaseSwitch).storedEdges,
      e.source = releaseSwitch.signature ∧ e.target = "<app.Button: void on()>" := by
    rw [recordBody_eq_callVisits, hvisits]
    decide +kernel
  refine ⟨reachable_empty, hnone, dispatchesAlike_releaseSwitch, hsome, ?_⟩
  intro e he hsource htarget c hc
  obtain ⟨v, hv, rfl, call, hcall, hrun⟩ :=
    (recordBody_overrides reachable_empty hnone).2 dispatchesAlike_releaseSwitch e he hsource c hc
  rw [hvisits] at hv
  rw [htarget] at hrun
  rcases List.mem_pair.mp hv with rfl | rfl
  · -- the static call runs no method of the subclass
    cases hcall
    rcases hrun with hsame | ⟨hstatic, _⟩
    · exact absurd hsame (by decide)
    · cases hstatic
  · rfl

/-- A body that calls the method of its superclass under a condition, and else dispatches
it. -/
def superSwitch : Body where
  signature := "<app.Main: void run()>"
  steps := #[
    ⟨.assign "sdk" (.field versionNumberField), .next⟩,
    ⟨.branch ⟨.localVar "ready", .eq, .int 0⟩ "plain", .branch 5⟩,
    ⟨.branch ⟨.localVar "sdk", .lt, .int 26⟩ "end", .branch 6⟩,
    ⟨.invoke ⟨.special, "<app.Listener: void on()>", [], false⟩, .next⟩,
    ⟨.ret none, .stop⟩,
    ⟨.invoke ⟨.virtual, "<app.Listener: void on()>", [], false⟩, .next⟩,
    ⟨.ret none, .stop⟩]
  target_lt := by decide
  flow_fits := by decide

/-- The dispatched call is under no condition, and yet the edge to the subclass has that of
the call of the superclass, which cannot run the method of the subclass. -/
theorem exact_call_guards_override :
    (∀ target, (∅ : CallGraph).conditionsAt ⟨superSwitch.signature, target⟩ = ∅)
    ∧ ¬ ∀ e ∈ ((∅ : CallGraph).recordBody listenerSubtypes {} superSwitch).storedEdges,
        e.source = superSwitch.signature →
        ∀ c ∈ e.conditions, ∃ v ∈ Walk.callVisits {} superSwitch, v.condition = c
          ∧ ∃ call, superSwitch.call? v.place = some call
            ∧ (e.target = call.method
              ∨ (call.kind.isDispatched = true ∧ call.isPrivate = false
                ∧ e.target ∈ overridesOf listenerSubtypes call.method)) := by
  refine ⟨fun _ => rfl, fun hclaim => ?_⟩
  have hvisits : Walk.callVisits {} superSwitch
      = [⟨3, .ofList [.negated "sdk < 26"]⟩, ⟨5, ∅⟩] := by
    cbv
  have hleak : ∃ e ∈ ((∅ : CallGraph).recordBody listenerSubtypes {} superSwitch).storedEdges,
      e.source = superSwitch.signature ∧ e.target = "<app.Button: void on()>"
        ∧ .ofList [.negated "sdk < 26"] ∈ e.conditions := by
    rw [recordBody_eq_callVisits, hvisits]
    decide +kernel
  obtain ⟨e, he, hsource, htarget, hc⟩ := hleak
  obtain ⟨v, hv, hcondition, call, hcall, hrun⟩ := hclaim e he hsource _ hc
  rw [hvisits] at hv
  rw [htarget] at hrun
  rcases List.mem_pair.mp hv with rfl | rfl
  · -- the call of the superclass is exact
    cases hcall
    rcases hrun with hsame | ⟨hspecial, _⟩
    · exact absurd hsame (by decide)
    · cases hspecial
  · exact absurd hcondition (by decide)

end CallGraph

end ApiGuard
