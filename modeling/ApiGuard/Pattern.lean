/-
  ApiGuard.Pattern
  ────────────────
  Patterns of text: regular expressions, and whether they match.

  A text is read once, from left to right.  `Marks` tells which parts of the
  pattern that match one character have just done so; `shift` moves the marks
  over the next character.  Only whether a pattern matches somewhere is ever
  asked, so the marks of all attempts are kept together.
-/
import ApiGuard.Text.CharSet

namespace ApiGuard

/-- A pattern. -/
inductive Pattern where
  /-- Nothing. -/
  | empty
  /-- One character of a set. -/
  | one (s : CharSet)
  /-- Nothing, at the start of the text. -/
  | start
  /-- Nothing, at the end of the text. -/
  | stop
  /-- One pattern after the other. -/
  | seq (p q : Pattern)
  /-- One pattern or the other. -/
  | alt (p q : Pattern)
  /-- A pattern at least once. -/
  | many (p : Pattern)
  deriving DecidableEq, Repr

namespace Pattern

/-! ## §1. Matching. -/

/-- What a pattern can tell about a place in a text. -/
structure Place where
  /-- Nothing stands before it. -/
  isStart : Bool
  /-- Nothing stands after it. -/
  isStop : Bool
  deriving DecidableEq, Repr

/-- Does the pattern match nothing at the place? -/
def nullable (place : Place) : Pattern → Bool
  | .empty => true
  | .one _ => false
  | .start => place.isStart
  | .stop => place.isStop
  | .seq p q => nullable place p && nullable place q
  | .alt p q => nullable place p || nullable place q
  | .many p => nullable place p

/-- Which parts of a pattern have matched the character just read. -/
inductive Marks where
  /-- None. -/
  | none
  /-- The pattern itself, which is one of a single character. -/
  | here
  /-- Those of the two parts of a pattern. -/
  | both (l r : Marks)
  deriving DecidableEq, Repr

namespace Marks

/-- The marks of the first part. -/
def left : Marks → Marks
  | .both l _ => l
  | _ => .none

/-- The marks of the second part. -/
def right : Marks → Marks
  | .both _ r => r
  | _ => .none

/-- The marks of two parts. -/
def pair : Marks → Marks → Marks
  | .none, .none => .none
  | l, r => .both l r

@[simp] theorem left_pair (l r : Marks) : (pair l r).left = l := by
  cases l <;> cases r <;> rfl

@[simp] theorem right_pair (l r : Marks) : (pair l r).right = r := by
  cases l <;> cases r <;> rfl

end Marks

/-- Is the place the end of a match of the pattern with a character in it? -/
def ends (place : Place) : Pattern → Marks → Bool
  | _, .none => false
  | .one _, m => m = .here
  | .seq p q, m => ends place q m.right || (ends place p m.left && nullable place q)
  | .alt p q, m => ends place p m.left || ends place q m.right
  | .many p, m => ends place p m
  | _, _ => false

/-- Without marks nothing ends. -/
@[simp] theorem ends_none {place : Place} {p : Pattern} : ends place p .none = false := by
  cases p <;> rfl

/-- The marks after the character `c`, which follows the place.  A match may begin
at the place if `enter` says so. -/
def shift (place : Place) (c : Char) : Bool → Pattern → Marks → Marks
  | false, _, .none => .none
  | enter, .one s, _ => if enter && s.contains c then .here else .none
  | enter, .seq p q, m =>
    .pair (shift place c enter p m.left)
      (shift place c ((enter && nullable place p) || ends place p m.left) q m.right)
  | enter, .alt p q, m =>
    .pair (shift place c enter p m.left) (shift place c enter q m.right)
  | enter, .many p, m => shift place c (enter || ends place p m) p m
  | _, _, _ => .none

/-- Does a match end before or within the rest of a text?  The marks are those of
the matches under way, and more may begin anywhere. -/
def matchesRest (p : Pattern) : Marks → Bool → List Char → Bool
  | m, isStart, [] => nullable ⟨isStart, true⟩ p || ends ⟨isStart, true⟩ p m
  | m, isStart, c :: cs =>
    nullable ⟨isStart, false⟩ p || ends ⟨isStart, false⟩ p m
      || matchesRest p (shift ⟨isStart, false⟩ c true p m) false cs

/-- Does the pattern match somewhere in the text? -/
def isMatch (p : Pattern) (text : String) : Bool := matchesRest p .none true text.toList

/-! ## §2. Construction. -/

/-- Patterns one after the other. -/
def sequence : List Pattern → Pattern
  | [] => .empty
  | [p] => p
  | p :: ps => .seq p (sequence ps)

/-- One of the patterns, of which there is one at least. -/
def choice : List Pattern → Pattern
  | [] => .empty
  | [p] => p
  | p :: ps => .alt p (choice ps)

/-- The pattern of a text. -/
def literal (text : List Char) : Pattern := sequence (text.map fun c => .one (.single c))

/-- A pattern or nothing. -/
def optional (p : Pattern) : Pattern := .alt .empty p

/-- A pattern the given number of times. -/
def times (p : Pattern) : Nat → Pattern
  | 0 => .empty
  | 1 => p
  | n + 2 =>
    let half := times p ((n + 2) / 2)
    if n % 2 = 0 then .seq half half else .seq p (.seq half half)

/-- A pattern at least `min` times, and at most `max` times if there is a bound. -/
def between (p : Pattern) (min : Nat) : Option Nat → Pattern
  | none => if min = 0 then optional (.many p) else .seq (times p (min - 1)) (.many p)
  | some max => .seq (times p min) (times (optional p) (max - min))

end Pattern

end ApiGuard
