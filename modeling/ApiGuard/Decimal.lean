/-
  ApiGuard.Decimal
  ────────────────
  Decimal numerals and the integers that fit a machine word.
-/

namespace ApiGuard.Decimal

/-! ## §1. Words. -/

/-- The greatest unsigned integer of 32 bits. -/
def maxUInt32 : Nat := 4294967295

/-- The greatest signed integer of 64 bits. -/
def maxInt64 : Int := 9223372036854775807

/-- The least signed integer of 64 bits. -/
def minInt64 : Int := -9223372036854775808

example : maxUInt32 = 2 ^ 32 - 1 ∧ maxInt64 = 2 ^ 63 - 1 ∧ minInt64 = -2 ^ 63 := by decide

/-- The unsigned integer of 32 bits equal to `i`, if there is one. -/
def toUInt32? (i : Int) : Option Nat :=
  if 0 ≤ i ∧ i ≤ maxUInt32 then some i.toNat else none

/-- `i`, if it is a signed integer of 64 bits. -/
def toInt64? (i : Int) : Option Int :=
  if minInt64 ≤ i ∧ i ≤ maxInt64 then some i else none

/-! ## §2. Numerals. -/

/-- The value of an ASCII digit. -/
def digitValue (c : Char) : Nat := c.toNat - '0'.toNat

/-- The value of a list of ASCII digits, the most significant first. -/
def value (digits : List Char) : Nat :=
  digits.foldl (fun n c => 10 * n + digitValue c) 0

/-- The least number that a word of 64 bits does not hold. -/
def wordLimit : Nat := Nat.pow 2 64

/-- Append digits to a number as long as a word of 64 bits holds it: the number,
and the digits that are left. -/
def append : Nat → List Char → Nat × List Char
  | n, [] => (n, [])
  | n, c :: cs =>
    if 10 * n + digitValue c < wordLimit then append (10 * n + digitValue c) cs
    else (n, c :: cs)

/-- The leading ASCII digits, at least one, as a number, and the rest. -/
def scan (cs : List Char) : Option (Nat × List Char) :=
  if cs.takeWhile Char.isDigit = [] then none
  else some (value (cs.takeWhile Char.isDigit), cs.dropWhile Char.isDigit)

/-- Digits after an optional minus sign, as a number, and the rest. -/
def scanSigned : List Char → Option (Int × List Char)
  | '-' :: cs => (scan cs).map fun (n, rest) => (-n, rest)
  | cs => (scan cs).map fun (n, rest) => (n, rest)

end ApiGuard.Decimal
