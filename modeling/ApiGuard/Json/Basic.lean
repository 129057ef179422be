/-
  ApiGuard.Json.Basic
  ───────────────────
  JSON values as they are written.

  An object keeps its members in order, repetitions included, and a number
  keeps the way it was written as far as it matters: whether it is an integer,
  and the digits that count.  What a value is good for is decided by those who look at it
  (`Json.string?`, `Json.int?`, …); they answer `none` for the wrong shape.
-/
import ApiGuard.Decimal

namespace ApiGuard

/-- A number: `significand · 10 ^ exponent`, with its sign. -/
structure JsonNumber where
  /-- Written with a minus sign. -/
  negative : Bool
  /-- The leading digits, as many as a word of 64 bits holds. -/
  significand : Nat
  /-- The power of ten by which the significand counts. -/
  exponent : Int
  /-- Written as an integer, all of whose digits are in the significand. -/
  isInteger : Bool
  deriving DecidableEq, Repr

/-- A JSON value. -/
inductive Json where
  | null
  | bool (b : Bool)
  | number (n : JsonNumber)
  | string (text : String)
  | array (items : List Json)
  | object (members : List (String × Json))
  /-- A string, or an object with a name, in which an escape stands for one
  half of a surrogate pair alone.  It is well formed but denotes no text. -/
  | unreadable
  deriving Repr, Inhabited

namespace JsonNumber

/-- The number of an integer. -/
def ofInt (i : Int) : JsonNumber := ⟨i < 0, i.natAbs, 0, true⟩

/-- The integer that a number is written as.  A minus sign before zero makes a
number that is no integer. -/
def int? (n : JsonNumber) : Option Int :=
  if !n.isInteger || (n.negative && n.significand == 0) then none
  else some (if n.negative then -n.significand else n.significand)

/-- The natural number of 53 binary digits and zeros after them that is nearest
to `n`; of two that are equally near, the one whose 53rd digit is zero. -/
def roundDouble (n : Nat) : Nat :=
  let unit := Nat.pow 2 (n.log2 + 1 - 53)
  let (whole, part) := (n / unit, n % unit)
  if unit < 2 * part ∨ (unit = 2 * part ∧ whole % 2 = 1) then (whole + 1) * unit
  else whole * unit

example : roundDouble 9007199254740993 = 9007199254740992
    ∧ roundDouble 9007199254740995 = 9007199254740996 := by decide

/-- The least number above the double precision range: half a unit in the last
place above the greatest finite value. -/
def doubleLimit : Nat := Nat.pow 2 1024 - Nat.pow 2 970

/-- Is the number in the double precision range?  Its value is computed in that
precision as the product of the significand and the power of ten, each of them
rounded before they are multiplied, and the greatest power in the range is
`10 ^ 308`. -/
def isFinite (n : JsonNumber) : Bool :=
  n.significand == 0 || n.exponent < 0 ||
    (n.exponent ≤ 308 &&
      roundDouble n.significand * roundDouble (Nat.pow 10 n.exponent.toNat) < doubleLimit)

end JsonNumber

namespace Json

/-! ## §1. Shapes. -/

/-- The value of an integer. -/
def ofInt (i : Int) : Json := .number (.ofInt i)

/-- The text of a string. -/
def string? : Json → Option String
  | .string text => some text
  | _ => none

/-- The value of `true` or `false`. -/
def bool? : Json → Option Bool
  | .bool b => some b
  | _ => none

/-- The integer a number is written as. -/
def int? : Json → Option Int
  | .number n => n.int?
  | _ => none

/-- A signed integer of 64 bits. -/
def int64? (j : Json) : Option Int := j.int?.bind Decimal.toInt64?

/-- An unsigned integer of 32 bits. -/
def uint32? (j : Json) : Option Nat := j.int?.bind Decimal.toUInt32?

/-- An array of values of which each is read by `read`. -/
def list? {α : Type} (read : Json → Option α) : Json → Option (List α)
  | .array items => items.mapM read
  | _ => none

/-- `null`, or a value read by `read`. -/
def nullable? {α : Type} (read : Json → Option α) : Json → Option (Option α)
  | .null => some none
  | j => (read j).map some

/-- The values that an object gives to a name. -/
def valuesOf (name : String) (members : List (String × Json)) : List Json :=
  (members.filter (·.1 == name)).map (·.2)

/-- The value that an object gives to a name, if any; to give two is an error. -/
def member? (members : List (String × Json)) (name : String) : Option (Option Json) :=
  match valuesOf name members with
  | [] => some none
  | [j] => some (some j)
  | _ => none

/-- The fields of a record with the given names.  A record is written as an
object, or as an array of its fields in order from which the last ones may be
missing. -/
def fields? (names : List String) : Json → Option (List (Option Json))
  | .object members => names.mapM (member? members)
  | .array items =>
    if items.length ≤ names.length then
      some (items.map some ++ List.replicate (names.length - items.length) none)
    else none
  | _ => none

/-! ## §2. Values that are kept. -/

mutual

/-- Can the value be held before it is looked at?  It must be readable
throughout, its numbers must be in the double precision range, and it must
nest at most `depth` levels. -/
def isHeld (depth : Nat) : Json → Bool
  | .null | .bool _ | .string _ => true
  | .number n => n.isFinite
  | .array items => 0 < depth && isHeldList (depth - 1) items
  | .object members => 0 < depth && isHeldMembers (depth - 1) members
  | .unreadable => false

/-- `isHeld` for each value of a list. -/
def isHeldList (depth : Nat) : List Json → Bool
  | [] => true
  | j :: rest => isHeld depth j && isHeldList depth rest

/-- `isHeld` for each value of a list of members. -/
def isHeldMembers (depth : Nat) : List (String × Json) → Bool
  | [] => true
  | (_, j) :: rest => isHeld depth j && isHeldMembers depth rest

end

end Json

end ApiGuard
