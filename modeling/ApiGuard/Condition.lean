/-
  ApiGuard.Condition
  ──────────────────
  Conditions on the paths through a method.

  A token says that the predicate of a branch held, or that it did not.  A path
  condition is the set of the tokens met along a path, and an edge of the call
  graph carries a set of path conditions.  Both are sorted sets, so equal
  conditions have equal texts.
-/
import ApiGuard.Order.SortedSet

namespace ApiGuard

open Std

/-! ## §1. Tokens. -/

/-- What is known of a branch on a path: the text of its predicate, and whether
it held. -/
inductive GuardToken where
  | holds (text : String)
  | negated (text : String)
  deriving DecidableEq, Repr

namespace GuardToken

/-- Tokens that hold come before those that are negated. -/
def rank : GuardToken → Nat
  | .holds _ => 0
  | .negated _ => 1

/-- The text of the predicate. -/
def text : GuardToken → String
  | .holds text => text
  | .negated text => text

/-- Write a token, with a dash before it if it is negated. -/
def render : GuardToken → String
  | .holds text => text
  | .negated text => "-" ++ text

instance : Ord GuardToken := ⟨compareLex (compareOn rank) (compareOn text)⟩

instance : TransOrd GuardToken :=
  inferInstanceAs (TransCmp (compareLex (compareOn rank) (compareOn text)))

instance : LawfulEqOrd GuardToken where
  eq_of_compare {a b} h := by
    have h : compareLex (compareOn rank) (compareOn text) a b = .eq := h
    rw [compareLex_eq_eq] at h
    have hr : a.rank = b.rank := LawfulEqOrd.eq_of_compare h.1
    have ht : a.text = b.text := LawfulEqOrd.eq_of_compare h.2
    cases a <;> cases b <;> simp_all [rank, text]

end GuardToken

/-! ## §2. Sets of tokens and sets of those. -/

/-- The tokens met along a path. -/
abbrev PathCondition := SortedSet GuardToken

/-- Write a path condition as `[a, -b]`. -/
def PathCondition.render (c : PathCondition) : String :=
  "[" ++ ", ".intercalate (c.toList.map GuardToken.render) ++ "]"

/-- The path conditions under which something happens. -/
abbrev Conditions := SortedSet PathCondition

namespace Conditions

/-- Write path conditions as `[[], [a, -b]]`. -/
def render (cs : Conditions) : String :=
  "[" ++ ", ".intercalate (cs.toList.map PathCondition.render) ++ "]"

/-- Does some path condition have a token? -/
def isGuarded (cs : Conditions) : Bool := cs.toList.any fun c => !c.isEmpty

end Conditions

end ApiGuard
