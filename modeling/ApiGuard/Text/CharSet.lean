/-
  ApiGuard.Text.CharSet
  ─────────────────────
  Sets of characters, as ranges of code points.

  `CharSet.ofRanges` puts ranges into their one form, in order and apart from
  each other; the other operations keep to it.
-/
import ApiGuard.Text.CaseFold

namespace ApiGuard

/-- A set of characters. -/
structure CharSet where
  /-- Ranges of code points, ends included, in order and apart. -/
  ranges : List (Nat × Nat)
  deriving DecidableEq, Repr

namespace CharSet

/-! ## §1. Members. -/

/-- Is the code point in the set? -/
def hasCode (s : CharSet) (code : Nat) : Bool :=
  s.ranges.any fun (lo, hi) => lo ≤ code && code ≤ hi

/-- Is the character in the set? -/
def contains (s : CharSet) (c : Char) : Bool := s.hasCode c.toNat

/-- The only character of the set, if there is just one. -/
def only? (s : CharSet) : Option Char :=
  match s.ranges with
  | [(lo, hi)] => if lo = hi then some (Char.ofNat lo) else none
  | _ => none

/-! ## §2. Construction. -/

/-- Add a range; those that it meets or touches become one with it. -/
def insertRange : Nat × Nat → List (Nat × Nat) → List (Nat × Nat)
  | r, [] => [r]
  | (lo, hi), (lo', hi') :: rest =>
    if hi + 1 < lo' then (lo, hi) :: (lo', hi') :: rest
    else if hi' + 1 < lo then (lo', hi') :: insertRange (lo, hi) rest
    else insertRange (min lo lo', max hi hi') rest

/-- The set of the code points in some ranges. -/
def ofRanges (ranges : List (Nat × Nat)) : CharSet := ⟨ranges.foldr insertRange []⟩

/-- The set of the given characters. -/
def ofChars (cs : List Char) : CharSet := ofRanges (cs.map fun c => (c.toNat, c.toNat))

/-- The set of one character. -/
def single (c : Char) : CharSet := ⟨[(c.toNat, c.toNat)]⟩

theorem contains_single_iff {c d : Char} : (single c).contains d = true ↔ d = c := by
  simp only [contains, hasCode, single, List.any_cons, List.any_nil, Bool.or_false,
    Bool.and_eq_true, decide_eq_true_eq]
  exact ⟨fun h => Char.toNat_inj.mp (Nat.le_antisymm h.2 h.1), fun h => by simp [h]⟩

/-- The characters of all the sets. -/
def union (sets : List CharSet) : CharSet := ofRanges (sets.flatMap ranges)

/-- The greatest code point. -/
def lastCode : Nat := 0x10FFFF

/-- What is between ranges, from a code point on. -/
def gaps : Nat → List (Nat × Nat) → List (Nat × Nat)
  | first, [] => if first ≤ lastCode then [(first, lastCode)] else []
  | first, (lo, hi) :: rest =>
    if first < lo then (first, lo - 1) :: gaps (hi + 1) rest else gaps (hi + 1) rest

/-- The characters that are not in the set. -/
def complement (s : CharSet) : CharSet := ⟨gaps 0 s.ranges⟩

/-- All characters but the newline. -/
def anyButNewline : CharSet := complement (single '\n')

/-- The characters that differ from one of the set in case at most. -/
def anyCase (s : CharSet) : CharSet :=
  let folded := Text.foldPairs.filter fun (c, target) => s.hasCode c || s.hasCode target
  let targets := ofRanges (folded.map fun (_, target) => (target, target))
  let letters := Text.foldPairs.filter fun (_, target) => targets.hasCode target
  ofRanges (letters.map (fun (c, _) => (c, c)) ++ targets.ranges ++ s.ranges)

end CharSet

end ApiGuard
