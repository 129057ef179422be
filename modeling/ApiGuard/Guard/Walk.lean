/-
  ApiGuard.Guard.Walk
  ───────────────────
  The walk through a body that finds under which conditions its statements are
  reached.

  The walk follows a chain of statements as long as each has one successor, and
  where control branches puts a frame for each way on a stack.  Every place is
  entered once, from the first frame or chain that comes to it.  If the
  condition of the branch reads a tainted local, the ways carry a token for it.
-/
import ApiGuard.Condition
import ApiGuard.Guard.Taint

namespace ApiGuard

/-- A place still to be entered, and what is known on the way to it. -/
structure Frame where
  place : Nat
  /-- The taint before the statement. -/
  taint : Taint
  /-- The tokens met on the way. -/
  condition : PathCondition
  deriving DecidableEq

/-- A place that was entered, and the condition of the way to it. -/
structure Visit where
  place : Nat
  condition : PathCondition
  deriving DecidableEq

/-- The frame of a place where control comes in. -/
def Frame.entry (place : Nat) : Frame := ⟨place, ∅, ∅⟩

namespace Walk

variable (markers : GuardMarkers) (body : Body)

/-! ## §1. Branches. -/

/-- The frame with the taint after its statement. -/
def update (f : Frame) : Frame :=
  match body.statement? f.place with
  | some s => { f with taint := f.taint.update markers s }
  | none => f

/-- The condition of the branch at a place and where control goes if it holds,
if it reads a tainted local. -/
def guard? (taint : Taint) (place : Nat) : Option (Predicate × Nat) := do
  let p ← (← body.statement? place).condition?
  let target ← body.branchTarget? place
  if taint.isGuard p then some (p, target) else none

/-- The frames of the given successors.  At a guard the one where the condition
holds comes first. -/
def branch (f : Frame) (succs : List Nat) : List Frame :=
  match guard? body f.taint f.place with
  | some (p, target) =>
    { f with place := target, condition := f.condition.insert (.holds p.render) } ::
      (succs.filter (· ≠ target)).map fun succ =>
        { f with place := succ, condition := f.condition.insert (.negated p.render) }
  | none => succs.map fun succ => { f with place := succ }

/-! ## §2. Chains. -/

/-- Does the statement at the place return? -/
def isReturn (place : Nat) : Bool := (body.statement? place).any Statement.isReturn

/-- Enter the place of a frame, which is not in `unseen` any more, and the chain
of statements after it, as long as each has one successor that was not entered
and does not return.  The result is the visits, the places left, and the frames
of the branch at the end of the chain. -/
def follow (unseen : SortedSet Nat) (f : Frame) : List Visit × SortedSet Nat × List Frame :=
  match body.successors f.place with
  | [] => ([⟨f.place, f.condition⟩], unseen, [])
  | [next] =>
    if next ∈ unseen ∧ isReturn body next = false then
      let (visits, left, frames) :=
        follow (unseen.erase next) { update markers body f with place := next }
      (⟨f.place, f.condition⟩ :: visits, left, frames)
    else ([⟨f.place, f.condition⟩], unseen, [])
  | succs => ([⟨f.place, f.condition⟩], unseen, branch body (update markers body f) succs)
termination_by unseen.size
decreasing_by exact SortedSet.size_erase_lt (by grind)

/-- Following a chain does not add places. -/
theorem size_follow_le (unseen : SortedSet Nat) (f : Frame) :
    (follow markers body unseen f).2.1.size ≤ unseen.size := by
  fun_induction follow markers body unseen f with
  | case1 => exact Nat.le_refl _
  | case2 unseen f next _ h visits left frames heq ih =>
    rw [heq] at ih
    exact Nat.le_trans ih (Nat.le_of_lt (SortedSet.size_erase_lt h.1))
  | case3 => exact Nat.le_refl _
  | case4 => exact Nat.le_refl _

/-! ## §3. The walk. -/

/-- Enter the places of the frames that are in `unseen`, and all that control
reaches from there. -/
def run (unseen : SortedSet Nat) : List Frame → List Visit
  | [] => []
  | f :: stack =>
    if f.place ∈ unseen then
      let r := follow markers body (unseen.erase f.place) f
      r.1 ++ run r.2.1 (r.2.2 ++ stack)
    else run unseen stack
termination_by stack => (unseen.size, stack.length)
decreasing_by
  · exact .left _ _ (Nat.lt_of_le_of_lt (size_follow_le markers body _ _)
      (SortedSet.size_erase_lt (by assumption)))
  · exact .right _ (Nat.lt_succ_self _)

/-- The places of the body. -/
def places : SortedSet Nat := .ofList (List.range body.size)

/-- The visits of the walk that enters the body at each of its entries. -/
def visits : List Visit := run markers body (places body) (body.entries.map Frame.entry)

/-- The calls that the walk meets, with the conditions under which it does. -/
def calls : List (Invocation × PathCondition) :=
  (visits markers body).filterMap fun v => do
    return (← (← body.statement? v.place).call?, v.condition)

end Walk

end ApiGuard
