/-
  ApiGuard.Proofs.Guard.Recording
  ───────────────────────────────
  What the recording of calls does to a call graph.

  To record the calls of visits stores the edges to all methods that these calls
  may run, puts the condition of each visit on them, and touches no edge from
  another method:

      isStored_recordVisits        the edges stored afterwards
      mem_conditionsAt_of_visit    each visit leaves its condition
      of_mem_conditionsAt          and there are no other new conditions
      Walk.Explores.recordBody_eq  a body is recorded by exploring its entries
-/
import ApiGuard.Proofs.CallGraph.View
import ApiGuard.Proofs.Guard.Chains
import Mathlib.Data.List.Permutation

namespace ApiGuard

/-- The call may run the method: it is the declared one, or that of a subclass if
the call is dispatched and not private. -/
def Invocation.MayRun (subtypes : Subtyping) (call : Invocation) (method : String) : Prop :=
  method = call.method
    ∨ (call.isOverridable = true ∧ method ∈ overridesOf subtypes call.method)

/-- The call at a place of the body may run the method. -/
def Body.MayRunAt (body : Body) (subtypes : Subtyping) (i : Nat) (method : String) : Prop :=
  ∃ call, body.call? i = some call ∧ call.MayRun subtypes method

theorem Arc.eq_mk_iff {a : Arc} {source target : String} :
    a = ⟨source, target⟩ ↔ a.source = source ∧ a.target = target := by
  cases a
  simp

namespace CallGraph

variable {g : CallGraph} {subtypes : Subtyping}

/-! ## §1. Extending edges from one method. -/

/-- Extend the edges from a method to others. -/
def extendAll (g : CallGraph) (caller : String) (cs : Conditions) (targets : List String) :
    CallGraph :=
  targets.foldl (fun h target => h.extendArc ⟨caller, target⟩ cs) g

theorem WellFormed.extendAll (caller : String) (cs : Conditions) (targets : List String) :
    ∀ {g : CallGraph}, g.WellFormed → (g.extendAll caller cs targets).WellFormed := by
  induction targets with
  | nil => exact fun h => h
  | cons target rest ih => exact fun h => ih (h.extendArc _ _)

theorem mem_conditionsAt_extendAll {caller : String} {cs : Conditions} {a : Arc}
    {c : PathCondition} (targets : List String) :
    ∀ {g : CallGraph}, g.WellFormed →
      (c ∈ (g.extendAll caller cs targets).conditionsAt a
        ↔ c ∈ g.conditionsAt a ∨ (a.source = caller ∧ a.target ∈ targets ∧ c ∈ cs)) := by
  induction targets with
  | nil => simp [CallGraph.extendAll]
  | cons target rest ih =>
      intro g h
      show c ∈ ((g.extendArc ⟨caller, target⟩ cs).extendAll caller cs rest).conditionsAt a ↔ _
      rw [ih (h.extendArc _ _), h.mem_conditionsAt_extendArc, List.mem_cons]
      rw [Arc.eq_mk_iff]
      grind

theorem isStored_extendAll {caller : String} {cs : Conditions} {a : Arc}
    (targets : List String) :
    ∀ {g : CallGraph}, g.WellFormed →
      ((g.extendAll caller cs targets).IsStored a
        ↔ g.IsStored a ∨ (a.source = caller ∧ a.target ∈ targets ∧ a.isValid = true)) := by
  induction targets with
  | nil => simp [CallGraph.extendAll]
  | cons target rest ih =>
      intro g h
      show ((g.extendArc ⟨caller, target⟩ cs).extendAll caller cs rest).IsStored a ↔ _
      rw [ih (h.extendArc _ _), h.isStored_extendArc, List.mem_cons]
      rw [Arc.eq_mk_iff]
      cases a
      grind

theorem find?_extendAll_of_ne {caller : String} (cs : Conditions) (targets : List String)
    {a : Arc} (hne : a.source ≠ caller) :
    ∀ {g : CallGraph}, (g.extendAll caller cs targets).numbers.find? a = g.numbers.find? a := by
  induction targets with
  | nil => exact rfl
  | cons target rest ih =>
      intro g
      show ((g.extendArc ⟨caller, target⟩ cs).extendAll caller cs rest).numbers.find? a = _
      rw [ih, find?_extendArc_of_ne]
      intro heq
      rw [heq] at hne
      exact hne rfl

/-! ## §2. Recording a call. -/

/-- The edge of the declared method gets the condition, and those to overrides
all conditions that it has by then. -/
theorem recordCall_eq (g : CallGraph) (subtypes : Subtyping) (caller : String)
    (call : Invocation) (c : PathCondition) :
    g.recordCall subtypes caller call c
      = (g.extendArc ⟨caller, call.method⟩ (.ofList [c])).extendAll caller
          ((g.extendArc ⟨caller, call.method⟩ (.ofList [c])).conditionsAt
            ⟨caller, call.method⟩)
          (if call.isOverridable then overridesOf subtypes call.method else []) := by
  have hnumber : (g.record ⟨caller, call.method⟩ c).1.numbers.find? ⟨caller, call.method⟩
      = some (g.record ⟨caller, call.method⟩ c).2 := by
    unfold CallGraph.record
    rw [numbers_add]
    exact find?_intern g _
  have hconditions : (g.record ⟨caller, call.method⟩ c).1.conditionsAt ⟨caller, call.method⟩
      = (g.record ⟨caller, call.method⟩ c).1.conditionsOf
          (g.record ⟨caller, call.method⟩ c).2 := by
    unfold conditionsAt
    rw [hnumber]
  -- the conditions are read by the number that the edge has got
  rw [← record_eq_extendArc, hconditions]
  unfold CallGraph.recordCall extendAll
  cases hcall : call.isOverridable <;> simp

theorem WellFormed.recordCall (h : g.WellFormed) (caller : String) (call : Invocation)
    (c : PathCondition) : (g.recordCall subtypes caller call c).WellFormed := by
  rw [recordCall_eq]
  exact WellFormed.extendAll _ _ _ (h.extendArc _ _)

/-- The edges to all methods that a call may run get its condition; those to
overrides also get what was on the edge to the declared method. -/
theorem WellFormed.mem_conditionsAt_recordCall (h : g.WellFormed) {caller : String}
    {call : Invocation} {c x : PathCondition} {a : Arc} :
    x ∈ (g.recordCall subtypes caller call c).conditionsAt a
      ↔ x ∈ g.conditionsAt a ∨ (a.source = caller
          ∧ ((call.MayRun subtypes a.target ∧ x = c)
            ∨ (call.isOverridable = true ∧ a.target ∈ overridesOf subtypes call.method
                ∧ x ∈ g.conditionsAt ⟨caller, call.method⟩))) := by
  rw [recordCall_eq, mem_conditionsAt_extendAll _ (h.extendArc _ _),
    h.mem_conditionsAt_extendArc, h.mem_conditionsAt_extendArc, Arc.eq_mk_iff]
  unfold Invocation.MayRun
  simp only [SortedSet.mem_ofList, List.mem_singleton, true_and]
  cases hcall : call.isOverridable <;> grind

/-- The edges to all methods that a call may run are stored. -/
theorem WellFormed.isStored_recordCall (h : g.WellFormed) {caller : String}
    {call : Invocation} {c : PathCondition} {a : Arc} :
    (g.recordCall subtypes caller call c).IsStored a
      ↔ g.IsStored a
        ∨ (a.source = caller ∧ a.isValid = true ∧ call.MayRun subtypes a.target) := by
  rw [recordCall_eq, isStored_extendAll _ (h.extendArc _ _), h.isStored_extendArc,
    Arc.eq_mk_iff]
  unfold Invocation.MayRun
  cases a
  cases hcall : call.isOverridable <;> grind

/-- A call touches no edge from another method. -/
theorem find?_recordCall_of_ne {caller : String} (call : Invocation) (c : PathCondition)
    {a : Arc} (hne : a.source ≠ caller) :
    (g.recordCall subtypes caller call c).numbers.find? a = g.numbers.find? a := by
  rw [recordCall_eq, find?_extendAll_of_ne _ _ hne, find?_extendArc_of_ne]
  intro heq
  rw [heq] at hne
  exact hne rfl

/-! ## §3. Recording visits. -/

/-- Record the call at a place, if there is one. -/
def recordAt (g : CallGraph) (subtypes : Subtyping) (body : Body) (i : Nat)
    (c : PathCondition) : CallGraph :=
  match body.call? i with
  | some call => g.recordCall subtypes body.signature call c
  | none => g

/-- Record the calls of visits, in order. -/
def recordVisits (g : CallGraph) (subtypes : Subtyping) (body : Body) (visits : List Visit) :
    CallGraph :=
  visits.foldl (fun h v => h.recordAt subtypes body v.place v.condition) g

variable {body : Body}

theorem recordVisits_append (g : CallGraph) (l m : List Visit) :
    g.recordVisits subtypes body (l ++ m)
      = (g.recordVisits subtypes body l).recordVisits subtypes body m :=
  List.foldl_append ..

theorem WellFormed.recordAt (h : g.WellFormed) (i : Nat) (c : PathCondition) :
    (g.recordAt subtypes body i c).WellFormed := by
  unfold CallGraph.recordAt
  split
  next => exact h.recordCall _ _ _
  next => exact h

theorem WellFormed.recordVisits (visits : List Visit) :
    ∀ {g : CallGraph}, g.WellFormed → (g.recordVisits subtypes body visits).WellFormed := by
  induction visits with
  | nil => exact fun h => h
  | cons v rest ih => exact fun h => ih (h.recordAt _ _)

/-- Recording at a place puts the condition on the edges to all methods that the
call there may run; those to overrides also get what was on the edge to the
declared method. -/
theorem WellFormed.mem_conditionsAt_recordAt (h : g.WellFormed) {i : Nat}
    {c x : PathCondition} {a : Arc} :
    x ∈ (g.recordAt subtypes body i c).conditionsAt a
      ↔ x ∈ g.conditionsAt a ∨ (a.source = body.signature
          ∧ ((body.MayRunAt subtypes i a.target ∧ x = c)
            ∨ ∃ call, body.call? i = some call ∧ call.isOverridable = true
                ∧ a.target ∈ overridesOf subtypes call.method
                ∧ x ∈ g.conditionsAt ⟨body.signature, call.method⟩)) := by
  unfold CallGraph.recordAt Body.MayRunAt
  cases hcall : body.call? i with
  | none => simp
  | some call =>
      simp only [Option.some.injEq, exists_eq_left']
      exact h.mem_conditionsAt_recordCall

theorem WellFormed.isStored_recordAt (h : g.WellFormed) {i : Nat} {c : PathCondition}
    {a : Arc} :
    (g.recordAt subtypes body i c).IsStored a
      ↔ g.IsStored a ∨ (a.source = body.signature ∧ a.isValid = true
          ∧ body.MayRunAt subtypes i a.target) := by
  unfold CallGraph.recordAt Body.MayRunAt
  cases hcall : body.call? i with
  | none => simp
  | some call =>
      simp only [Option.some.injEq, exists_eq_left']
      exact h.isStored_recordCall

/-- Stored are the edges to the methods that the calls visited may run, besides
those stored before. -/
theorem isStored_recordVisits {a : Arc} (visits : List Visit) :
    ∀ {g : CallGraph}, g.WellFormed →
      ((g.recordVisits subtypes body visits).IsStored a
        ↔ g.IsStored a ∨ (a.source = body.signature ∧ a.isValid = true
            ∧ ∃ v ∈ visits, body.MayRunAt subtypes v.place a.target)) := by
  induction visits with
  | nil => simp [CallGraph.recordVisits]
  | cons v rest ih =>
      intro g h
      show ((g.recordAt subtypes body v.place v.condition).recordVisits subtypes body
        rest).IsStored a ↔ _
      rw [ih (h.recordAt _ _), h.isStored_recordAt]
      simp only [List.mem_cons, exists_eq_or_imp]
      grind

/-- No condition is lost. -/
theorem mem_conditionsAt_of_mem {a : Arc} {x : PathCondition} (visits : List Visit) :
    ∀ {g : CallGraph}, g.WellFormed → x ∈ g.conditionsAt a →
      x ∈ (g.recordVisits subtypes body visits).conditionsAt a := by
  induction visits with
  | nil => exact fun _ hx => hx
  | cons v rest ih =>
      exact fun h hx => ih (h.recordAt _ _) (h.mem_conditionsAt_recordAt.mpr (.inl hx))

/-- Each visit leaves its condition on the edges to all methods that the call may
run. -/
theorem mem_conditionsAt_of_visit {visits : List Visit} :
    ∀ {g : CallGraph}, g.WellFormed → ∀ {v : Visit}, v ∈ visits → ∀ {target : String},
      body.MayRunAt subtypes v.place target →
      v.condition ∈ (g.recordVisits subtypes body visits).conditionsAt
        ⟨body.signature, target⟩ := by
  induction visits with
  | nil =>
      intro g _ v hv
      cases hv
  | cons w rest ih =>
      intro g h v hv target hrun
      rcases List.mem_cons.mp hv with rfl | hv
      · -- what the first visit leaves the others keep
        refine mem_conditionsAt_of_mem rest (h.recordAt _ _) ?_
        exact h.mem_conditionsAt_recordAt.mpr (.inr ⟨rfl, .inl ⟨hrun, rfl⟩⟩)
      · exact ih (h.recordAt _ _) hv hrun

/-- A condition that recording at a place adds to an edge comes from another edge
from the same method, or is the one given; and the call there may run the method
to which the edge leads. -/
theorem WellFormed.of_mem_conditionsAt_recordAt (h : g.WellFormed) {i : Nat}
    {c x : PathCondition} {a : Arc}
    (hx : x ∈ (g.recordAt subtypes body i c).conditionsAt a) :
    x ∈ g.conditionsAt a ∨ (a.source = body.signature ∧ body.MayRunAt subtypes i a.target
      ∧ ((∃ target, x ∈ g.conditionsAt ⟨body.signature, target⟩) ∨ c = x)) := by
  rcases h.mem_conditionsAt_recordAt.mp hx with
    hx | ⟨hsource, ⟨hrun, rfl⟩ | ⟨call, hcall, hoverridable, htarget, hx⟩⟩
  · exact .inl hx
  · exact .inr ⟨hsource, hrun, .inr rfl⟩
  · have hrun : body.MayRunAt subtypes i a.target :=
      ⟨call, hcall, .inr ⟨hoverridable, htarget⟩⟩
    exact .inr ⟨hsource, hrun, .inl ⟨_, hx⟩⟩

/-- A condition on an edge was on it before, or it leads to a method that a call
visited may run.  Then the condition was on an edge from the same method before,
or is that of a visit of a call. -/
theorem of_mem_conditionsAt {a : Arc} {x : PathCondition} (visits : List Visit) :
    ∀ {g : CallGraph}, g.WellFormed →
      x ∈ (g.recordVisits subtypes body visits).conditionsAt a →
      x ∈ g.conditionsAt a ∨ (a.source = body.signature
        ∧ (∃ v ∈ visits, body.MayRunAt subtypes v.place a.target)
        ∧ ((∃ target, x ∈ g.conditionsAt ⟨body.signature, target⟩)
          ∨ ∃ v ∈ visits, v.condition = x ∧ ∃ call, body.call? v.place = some call)) := by
  induction visits with
  | nil => exact fun _ hx => .inl hx
  | cons v rest ih =>
      intro g h hx
      have hat : ∀ {b : Arc},
          x ∈ (g.recordAt subtypes body v.place v.condition).conditionsAt b →
          x ∈ g.conditionsAt b ∨ (b.source = body.signature
            ∧ body.MayRunAt subtypes v.place b.target
            ∧ ((∃ target, x ∈ g.conditionsAt ⟨body.signature, target⟩)
              ∨ v.condition = x)) := h.of_mem_conditionsAt_recordAt
      have hfirst : ∀ {target : String}, body.MayRunAt subtypes v.place target →
          v.condition = x →
          ∃ w ∈ v :: rest, w.condition = x ∧ ∃ call, body.call? w.place = some call := by
        intro target hrun hvx
        obtain ⟨call, hcall, _⟩ := hrun
        exact ⟨v, List.mem_cons_self, hvx, call, hcall⟩
      rcases ih (h.recordAt _ _) hx with hx | ⟨hsource, ⟨w, hw, hrun⟩, hfrom⟩
      · -- the condition is there once the first visit is recorded
        rcases hat hx with hx | ⟨hsource, hrun, hfrom⟩
        · exact .inl hx
        · exact .inr ⟨hsource, ⟨v, List.mem_cons_self, hrun⟩, hfrom.imp id (hfirst hrun)⟩
      · refine .inr ⟨hsource, ⟨w, List.mem_cons_of_mem _ hw, hrun⟩, ?_⟩
        rcases hfrom with ⟨target, hx⟩ | ⟨u, hu, hux⟩
        · -- an edge had it by then, before or from the first visit
          rcases hat hx with hx | ⟨_, hrun', hfrom⟩
          · exact .inl ⟨target, hx⟩
          · exact hfrom.imp id (hfirst hrun')
        · exact .inr ⟨u, List.mem_cons_of_mem _ hu, hux⟩

/-- The edges from other methods keep their numbers. -/
theorem find?_recordVisits_of_ne {a : Arc} (hne : a.source ≠ body.signature)
    (visits : List Visit) :
    ∀ {g : CallGraph},
      (g.recordVisits subtypes body visits).numbers.find? a = g.numbers.find? a := by
  induction visits with
  | nil => exact rfl
  | cons v rest ih =>
      intro g
      show ((g.recordAt subtypes body v.place v.condition).recordVisits subtypes body
        rest).numbers.find? a = _
      rw [ih]
      unfold CallGraph.recordAt
      cases body.call? v.place with
      | none => rfl
      | some call => exact find?_recordCall_of_ne call _ hne

/-- The edges from other methods keep their conditions. -/
theorem conditionsAt_recordVisits_of_ne (h : g.WellFormed) {a : Arc}
    (hne : a.source ≠ body.signature) (visits : List Visit) :
    (g.recordVisits subtypes body visits).conditionsAt a = g.conditionsAt a := by
  refine SortedSet.ext fun x => ⟨fun hx => ?_, mem_conditionsAt_of_mem visits h⟩
  rcases of_mem_conditionsAt visits h hx with hx | ⟨hsource, _⟩
  · exact hx
  · exact absurd hsource hne

/-! ## §4. Recording a body. -/

variable {markers : GuardMarkers}

/-- Nothing is recorded at a return. -/
theorem recordVisits_properVisits (visits : List Visit) :
    ∀ g : CallGraph, g.recordVisits subtypes body (Walk.properVisits body visits)
      = g.recordVisits subtypes body visits := by
  induction visits with
  | nil => intro g; rfl
  | cons v rest ih =>
      intro g
      by_cases hret : Walk.isReturn body v.place = true
      · rw [Walk.properVisits_cons_of_return hret, ih]
        show _ = (g.recordAt subtypes body v.place v.condition).recordVisits subtypes body rest
        unfold CallGraph.recordAt
        rw [Body.call?_eq_none_of_isReturn hret]
      · rw [Walk.properVisits_cons (by simpa using hret)]
        exact ih _

/-- To record a body is to record the calls of its visits. -/
theorem recordBody_eq_recordVisits (g : CallGraph) (subtypes : Subtyping)
    (markers : GuardMarkers) (body : Body) :
    g.recordBody subtypes markers body
      = g.recordVisits subtypes body (Walk.visits markers body) := by
  unfold CallGraph.recordBody Walk.calls CallGraph.recordVisits
  rw [List.foldl_filterMap]
  congr 1
  funext h v
  unfold CallGraph.recordAt Body.call?
  cases hs : body.statement? v.place with
  | none => rfl
  | some s =>
      cases hc : s.call? with
      | none => simp [hc]
      | some call => simp [hc]

end CallGraph

/-- A body is recorded by exploring its entries. -/
theorem Walk.Explores.recordBody_eq {markers : GuardMarkers} {body : Body}
    {left : SortedSet Nat} {visits : List Visit}
    (h : Explores markers body (places body) (body.entries.map Frame.entry) visits left)
    (g : CallGraph) (subtypes : Subtyping) :
    g.recordBody subtypes markers body = g.recordVisits subtypes body visits := by
  rw [CallGraph.recordBody_eq_recordVisits, ← CallGraph.recordVisits_properVisits,
    h.visits_eq, CallGraph.recordVisits_properVisits]

/-! ## §5. A body as an example. -/

/-- A body that calls a method of a listener from release 26 on, and a static
method before. -/
def releaseSwitch : Body where
  signature := "<app.Main: void run()>"
  steps := #[
    ⟨.assign "sdk" (.field versionNumberField), .next⟩,
    ⟨.branch ⟨.localVar "sdk", .lt, .int 26⟩ "old", .branch 4⟩,
    ⟨.invoke ⟨.interface, "<app.Listener: void on()>", [], false⟩, .next⟩,
    ⟨.ret none, .stop⟩,
    ⟨.invoke ⟨.static, "<app.Legacy: void on()>", [], false⟩, .next⟩,
    ⟨.ret none, .stop⟩]
  target_lt := by decide
  flow_fits := by decide

/-- The listener has one subclass, and no other class has any. -/
def listenerSubtypes : Subtyping := fun className =>
  if className = "app.Listener" then .ofList ["app.Button", "app.Listener"]
  else .ofList [className]

/-- The way on which the condition holds is visited first, and no return is. -/
theorem visits_releaseSwitch :
    Walk.visits {} releaseSwitch
      = [⟨0, ∅⟩, ⟨1, ∅⟩, ⟨4, .ofList [.holds "sdk < 26"]⟩, ⟨2, .ofList [.negated "sdk < 26"]⟩] := by
  cbv

end ApiGuard
