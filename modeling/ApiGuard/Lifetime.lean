/-
  ApiGuard.Lifetime
  ─────────────────
  The platform levels on which a method of the platform is available.
-/
import ApiGuard.Decimal

namespace ApiGuard

/-- A platform level, which may be unknown. -/
inductive ApiLevel where
  | known (level : Nat)
  | unknown
  deriving DecidableEq, Repr

namespace ApiLevel

/-- A level given as an integer.  One that is negative, or too large for an
unsigned integer of 32 bits, is unknown. -/
def ofInt (i : Int) : ApiLevel :=
  match Decimal.toUInt32? i with
  | some level => .known level
  | none => .unknown

/-- The level, if it is known. -/
def known? : ApiLevel → Option Nat
  | .known level => some level
  | .unknown => none

/-- Write a level, `?` if it is unknown. -/
def render : ApiLevel → String
  | .known level => toString level
  | .unknown => "?"

end ApiLevel

/-- A method of the platform with the first and the last level that have it. -/
structure Lifetime where
  /-- The signature of the method. -/
  signature : String
  /-- The first level. -/
  min : ApiLevel
  /-- The last level. -/
  max : ApiLevel
  deriving DecidableEq, Repr

namespace Lifetime

/-- A method of which neither bound is known. -/
def unknown (signature : String) : Lifetime := ⟨signature, .unknown, .unknown⟩

/-- Both bounds, if both are known. -/
def bounds? (life : Lifetime) : Option (Nat × Nat) := do
  return (← life.min.known?, ← life.max.known?)

/-- Write a lifetime as `SIGNATURE [MIN, MAX]`. -/
def render (life : Lifetime) : String :=
  life.signature ++ " [" ++ life.min.render ++ ", " ++ life.max.render ++ "]"

end Lifetime

end ApiGuard
