/-
  ApiGuard.Lifetime.Table
  ───────────────────────
  The table of known lifetimes.

  The table has one entry for each canonical signature, so two signatures
  that differ only by `$` against `.` share their entry.
-/
import ApiGuard.Lifetime
import ApiGuard.Order.SortedMap
import ApiGuard.Signature

namespace ApiGuard

/-- The bounds of each known method of the platform, by canonical signature. -/
structure LifetimeTable where
  /-- The first and the last level of each canonical signature. -/
  entries : SortedMap String (ApiLevel × ApiLevel) := ∅

namespace LifetimeTable

instance : EmptyCollection LifetimeTable := ⟨{}⟩

/-- Set the bounds of a signature. -/
def insert (table : LifetimeTable) (signature : String) (min max : ApiLevel) : LifetimeTable :=
  ⟨table.entries.insert (Signature.canonical signature) (min, max)⟩

/-- Is the signature in the table? -/
def contains (table : LifetimeTable) (signature : String) : Bool :=
  table.entries.contains (Signature.canonical signature)

/-- The lifetime of a signature, whose bounds are unknown if it is not in the
table. -/
def lookup (table : LifetimeTable) (signature : String) : Lifetime :=
  match table.entries.find? (Signature.canonical signature) with
  | some (min, max) => ⟨Signature.canonical signature, min, max⟩
  | none => .unknown (Signature.canonical signature)

/-- The lifetimes in the table, in increasing order of signature. -/
def toList (table : LifetimeTable) : List Lifetime :=
  table.entries.toList.map fun (signature, min, max) => ⟨signature, min, max⟩

/-- The number of entries. -/
def size (table : LifetimeTable) : Nat := table.entries.size

/-- The number of entries with two known bounds. -/
def countKnown (table : LifetimeTable) : Nat :=
  table.toList.countP fun life => life.bounds?.isSome

end LifetimeTable

end ApiGuard
