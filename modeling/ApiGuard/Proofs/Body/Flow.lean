/-
  ApiGuard.Proofs.Body.Flow
  ─────────────────────────
  Facts about the flow of control through a body.

  Control stays in the body (`lt_size_of_mem_successors`), goes nowhere from a
  return (`successors_eq_nil_of_isReturn`), and goes to the target of a branch
  among others (`mem_successors_of_branchTarget?`).  Successors come in increasing
  order (`pairwise_successors`).  A place is reached if
  control comes to it from an entry in some number of steps (`IsReached`).
-/
import ApiGuard.Guard.Walk
import Mathlib.Logic.Relation

namespace ApiGuard.Body

variable {body : Body}

/-! ## §1. What stands at a place. -/

/-- The call in the statement at a place. -/
def call? (body : Body) (i : Nat) : Option Invocation :=
  (body.statement? i).bind Statement.call?

/-- The condition of the statement at a place. -/
def condition? (body : Body) (i : Nat) : Option Predicate :=
  (body.statement? i).bind Statement.condition?

/-- The flow at a place is one that the statement there may have. -/
theorem fits_of_flow? {i : Nat} {s : Statement} {flow : Flow}
    (hs : body.statement? i = some s) (hf : body.flow? i = some flow) :
    flow.fits s = true := by
  unfold statement? at hs
  unfold flow? at hf
  cases hstep : body.steps[i]? with
  | none => rw [hstep] at hs; cases hs
  | some step =>
      rw [hstep] at hs hf
      cases hs
      cases hf
      exact body.flow_fits step (Array.mem_of_getElem? hstep)

/-- There is a flow where there is a statement. -/
theorem exists_flow?_of_statement? {i : Nat} {s : Statement}
    (hs : body.statement? i = some s) : ∃ flow, body.flow? i = some flow := by
  unfold statement? at hs
  unfold flow?
  cases hstep : body.steps[i]? with
  | none => rw [hstep] at hs; cases hs
  | some step => exact ⟨step.flow, rfl⟩

/-- A statement that has a condition has a place to go to if it holds. -/
theorem exists_branchTarget?_of_condition? {i : Nat} {p : Predicate}
    (hp : body.condition? i = some p) : ∃ target, body.branchTarget? i = some target := by
  obtain ⟨s, hs, hcond⟩ := Option.bind_eq_some_iff.mp hp
  obtain ⟨flow, hflow⟩ := exists_flow?_of_statement? hs
  have hfits := fits_of_flow? hs hflow
  unfold branchTarget?
  rw [hflow]
  -- only a branch has a condition
  cases s <;> cases hcond
  cases flow <;> first | exact ⟨_, rfl⟩ | cases hfits

/-! ## §2. Successors. -/

/-- Control goes nowhere from a return. -/
theorem successors_eq_nil_of_isReturn {i : Nat} (h : Walk.isReturn body i = true) :
    body.successors i = [] := by
  unfold Walk.isReturn at h
  obtain ⟨s, hs, hret⟩ := (Option.any_eq_true _ _).mp h
  obtain ⟨flow, hflow⟩ := exists_flow?_of_statement? hs
  have hfits := fits_of_flow? hs hflow
  unfold successors
  rw [hflow]
  -- after a return no other flow fits than to stop
  cases s <;> cases hret
  cases flow <;> first | rfl | cases hfits

/-- There is no call in a return. -/
theorem call?_eq_none_of_isReturn {i : Nat} (h : Walk.isReturn body i = true) :
    body.call? i = none := by
  unfold Walk.isReturn at h
  obtain ⟨s, hs, hret⟩ := (Option.any_eq_true _ _).mp h
  unfold call?
  rw [hs]
  cases s <;> first | rfl | cases hret

theorem lt_size_of_next? {i j : Nat} (h : body.next? i = some j) : j < body.size := by
  unfold next? at h
  split at h
  next hlt => cases h; exact hlt
  next => cases h

/-- The place that a flow names is one of the body. -/
theorem lt_size_of_target? {i j : Nat} {flow : Flow} (hf : body.flow? i = some flow)
    (hj : flow.target? = some j) : j < body.size := by
  unfold flow? at hf
  obtain ⟨step, hstep, rfl⟩ := Option.map_eq_some_iff.mp hf
  exact body.target_lt step (Array.mem_of_getElem? hstep) j hj

/-- Control stays in the body. -/
theorem lt_size_of_mem_successors {i j : Nat} (h : j ∈ body.successors i) : j < body.size := by
  unfold successors at h
  split at h
  next => cases h
  next => cases h
  next => exact lt_size_of_next? (Option.mem_toList.mp h)
  next target hf =>
      rw [List.mem_singleton.mp h]
      exact lt_size_of_target? hf rfl
  next target hf =>
      -- a branch may also go on with the next place
      have htarget : target < body.size := lt_size_of_target? hf rfl
      cases hn : body.next? i with
      | none =>
          simp only [hn, List.mem_singleton] at h
          rw [h]
          exact htarget
      | some next =>
          have hnext := lt_size_of_next? hn
          simp only [hn] at h
          split at h
          next => simp at h; omega
          next =>
              split at h
              next => simp at h; omega
              next => simp at h; omega

/-- Control may go to the target of a branch. -/
theorem mem_successors_of_branchTarget? {i target : Nat}
    (h : body.branchTarget? i = some target) : target ∈ body.successors i := by
  unfold branchTarget? at h
  split at h
  next t hf =>
      cases h
      unfold successors
      rw [hf]
      cases hn : body.next? i with
      | none => simp
      | some next =>
          -- the target is listed before the next place, after it, or is the same
          show target ∈ if target < next then [target, next]
            else if target = next then [next] else [next, target]
          split
          next => simp
          next =>
              split
              next heq => simp [heq]
              next => simp
  next => cases h

/-- The successors of a place are listed in increasing order, each once. -/
theorem pairwise_successors (i : Nat) : (body.successors i).Pairwise (· < ·) := by
  unfold successors
  split
  next => exact .nil
  next => exact .nil
  next => cases body.next? i <;> simp
  next => simp
  next target _ =>
      cases body.next? i with
      | none => simp
      | some next =>
          show (if target < next then [target, next]
            else if target = next then [next] else [next, target]).Pairwise (· < ·)
          split
          next => simpa
          next =>
              split
              next => simp
              next => simp; omega

/-! ## §3. Places reached. -/

/-- Control may go from one place to the other in one step. -/
def Flows (body : Body) (i j : Nat) : Prop := j ∈ body.successors i

/-- Control comes to the place from an entry. -/
def IsReached (body : Body) (i : Nat) : Prop :=
  ∃ entry ∈ body.entries, Relation.ReflTransGen body.Flows entry i

theorem lt_size_of_mem_entries {i : Nat} (h : i ∈ body.entries) : i < body.size := by
  unfold entries at h
  exact List.mem_range.mp (List.mem_filter.mp h).1

end ApiGuard.Body
