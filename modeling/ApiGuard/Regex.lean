/-
  ApiGuard.Regex
  ──────────────
  Regular expressions as they are written.
-/

namespace ApiGuard

/-- An expression. -/
inductive Regex where
  /-- Nothing, or flags. -/
  | empty
  /-- A letter, in both cases if so. -/
  | letter (c : Char) (anyCase : Bool)
  /-- Any character but the newline. -/
  | any
  /-- A character in one of the ranges, ends included, or in none of them. -/
  | bracket (items : List (Char × Char)) (negated anyCase : Bool)
  /-- The start of the text. -/
  | start
  /-- The end of the text. -/
  | stop
  /-- A group; it captures unless it is written with `?:`. -/
  | group (captures : Bool) (e : Regex)
  /-- A repetition at least `min` times, and at most `max` times if there is a
  bound; a lazy one prefers to be short. -/
  | repeated (e : Regex) (min : Nat) (max : Option Nat) (isLazy : Bool)
  /-- Expressions one after the other, at least two. -/
  | sequence (es : List Regex)
  /-- One of the expressions, which are at least two. -/
  | choice (es : List Regex)
  deriving Repr, Inhabited

namespace Regex

/-- Expressions one after the other. -/
def ofItems : List Regex → Regex
  | [] => .empty
  | [e] => e
  | es => .sequence es

/-- One of the expressions. -/
def ofBranches : List Regex → Regex
  | [e] => e
  | es => .choice es

mutual

/-- How deep the expression nests.  A bracket of several items is two levels, the
bracket and the union of its items. -/
def depth : Regex → Nat
  | .empty | .letter _ _ | .any | .start | .stop => 0
  | .bracket items _ _ => if items.length ≤ 1 then 1 else 2
  | .group _ e => depth e + 1
  | .repeated e _ _ _ => depth e + 1
  | .sequence es => depthList es + 1
  | .choice es => depthList es + 1

/-- The greatest depth of some expressions. -/
def depthList : List Regex → Nat
  | [] => 0
  | e :: es => max (depth e) (depthList es)

end

/-- The greatest depth of an expression that is accepted. -/
def maxDepth : Nat := 250

end Regex

end ApiGuard
