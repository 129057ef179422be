/-
  ApiGuard.Guard.Taint
  ────────────────────
  Which locals hold a value derived from the platform version, or from a check
  that stands for it.

  A local is tainted by its last assignment: it is if the text of the assignment
  has a marker, and is not any more if it has none.
-/
import ApiGuard.Body
import ApiGuard.Order.SortedSet
import ApiGuard.Text

namespace ApiGuard

/-! ## §1. Markers. -/

/-- The field that holds the platform version as a number. -/
def versionNumberField : String := "<android.os.Build$VERSION: int SDK_INT>"

/-- The field that holds the platform version as a text. -/
def versionTextField : String := "<android.os.Build$VERSION: java.lang.String SDK>"

/-- A check that fails below a certain platform version. -/
def animatorsCheck : String := "areAnimatorsEnabled"

/-- The texts by which values are recognised that a guard may depend on. -/
structure GuardMarkers where
  /-- Fields of the platform version. -/
  versionFields : List String := [versionNumberField, versionTextField]
  /-- Checks that stand for the platform version. -/
  featureChecks : List String := [animatorsCheck]
  deriving DecidableEq, Repr

namespace GuardMarkers

/-- Does a field of the platform version occur in the text? -/
def marksVersion (markers : GuardMarkers) (text : String) : Bool :=
  markers.versionFields.any (Text.mentions text)

/-- Does a check that stands for the platform version occur in the text? -/
def marksFeature (markers : GuardMarkers) (text : String) : Bool :=
  markers.featureChecks.any (Text.mentions text)

/-- Does the body read the platform version anywhere? -/
def readsVersion (markers : GuardMarkers) (body : Body) : Bool :=
  markers.marksVersion body.render

end GuardMarkers

/-! ## §2. Taint. -/

/-- The tainted locals, those of either kind of marker by themselves. -/
structure Taint where
  /-- Locals derived from the platform version. -/
  version : SortedSet String := ∅
  /-- Locals derived from a check that stands for it. -/
  feature : SortedSet String := ∅
  deriving DecidableEq

namespace Taint

instance : EmptyCollection Taint := ⟨{}⟩

/-- The tainted locals once `name` is assigned. -/
def reassign (locals : SortedSet String) (name : String) (tainted : Bool) : SortedSet String :=
  if tainted then locals.insert name else locals.erase name

/-- The taint after a statement. -/
def update (markers : GuardMarkers) (taint : Taint) (s : Statement) : Taint :=
  match s.assigned? with
  | none => taint
  | some name =>
    { version := reassign taint.version name (markers.marksVersion s.render)
      feature := reassign taint.feature name (markers.marksFeature s.render) }

/-- Does the condition read a tainted local? -/
def isGuard (taint : Taint) (p : Predicate) : Bool :=
  p.uses.any fun name => taint.version.contains name || taint.feature.contains name

end Taint

end ApiGuard
