/-
  ApiGuard.Usage
  ──────────────
  Which methods of the platform an application uses, and from where.

  A call uses the method of the platform that it names, or else the nearest
  inherited one.  A used method is known by its canonical signature; the
  signatures it was called by are kept beside it.
-/
import ApiGuard.Guard.Taint
import ApiGuard.Hierarchy
import ApiGuard.Lifetime.Table
import ApiGuard.Order.Relation

namespace ApiGuard

/-- The used method that a call of `invoked` stands for, if it stands for one. -/
def platformMethod? (table : LifetimeTable) (h : Hierarchy) (invoked : String) : Option String :=
  if table.contains invoked then some (Signature.canonical invoked)
  else
    (((h.ancestors (Signature.declaringClass invoked)).map (Signature.inClass invoked)).find?
      table.contains).map Signature.canonical

/-- Where used methods are called from. -/
structure CallSites where
  /-- The methods that call the used one. -/
  callersOf : String → SortedSet String
  /-- The signatures that the used method is called by. -/
  spellingsOf : String → SortedSet String

/-- The used methods of the platform. -/
structure ApiUsage where
  /-- Those used by the main unit. -/
  primary : SortedSet String := ∅
  /-- Those used by the other units. -/
  secondary : SortedSet String := ∅
  /-- The callers of each. -/
  callers : Relation String String := ∅
  /-- The signatures that each was called by. -/
  spellings : Relation String String := ∅
  /-- Some body reads the platform version. -/
  readsVersion : Bool := false

namespace ApiUsage

instance : EmptyCollection ApiUsage := ⟨{}⟩

/-- Note that `caller` uses `api`, under the signature `invoked`. -/
def note (u : ApiUsage) (isPrimary : Bool) (caller invoked api : String) : ApiUsage :=
  { u with
    primary := if isPrimary then u.primary.insert api else u.primary
    secondary := if isPrimary then u.secondary else u.secondary.insert api
    callers := u.callers.add api caller
    spellings := u.spellings.add api invoked }

/-- The signatures that a body calls, in order. -/
def invokedBy (body : Body) : List String :=
  body.steps.toList.filterMap fun step => step.statement.call?.map (·.method)

/-- Note what a body uses. -/
def noteBody (u : ApiUsage) (table : LifetimeTable) (h : Hierarchy) (markers : GuardMarkers)
    (isPrimary : Bool) (body : Body) : ApiUsage :=
  (invokedBy body).foldl
    (fun u invoked =>
      match platformMethod? table h invoked with
      | some api => u.note isPrimary body.signature invoked api
      | none => u)
    { u with readsVersion := u.readsVersion || markers.readsVersion body }

/-- The used methods, in increasing order. -/
def used (u : ApiUsage) : List String := u.callers.keys

/-- Where the used methods are called from.  Each may be called by its own
signature. -/
def callSites (u : ApiUsage) : CallSites where
  callersOf := u.callers.image
  spellingsOf api := (u.spellings.image api).insert api

end ApiUsage

end ApiGuard
