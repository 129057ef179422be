/-
  ApiGuard.Analysis
  ─────────────────
  The analysis of an application: bodies are entered one by one, unit by unit,
  and once all are in, constructors are expanded and the result is classified.
-/
import ApiGuard.Classification
import ApiGuard.Guard.Calls

namespace ApiGuard

/-- The namespace of the support library. -/
def supportNamespace : String := "android.support."

/-- What an analysis looks for, and where it does not look. -/
structure AnalysisConfig where
  markers : GuardMarkers := {}
  /-- Classes whose names start with one of these are not analysed. -/
  excludedNamespaces : List String := [supportNamespace]
  deriving DecidableEq, Repr

/-- Is the method in a class that is not analysed? -/
def AnalysisConfig.excludes (config : AnalysisConfig) (method : String) : Bool :=
  config.excludedNamespaces.any (Text.beginsWith (Signature.declaringClass method))

/-- What an analysis knows beforehand. -/
structure AnalysisInputs where
  hierarchy : Hierarchy
  table : LifetimeTable
  config : AnalysisConfig := {}

/-- What an analysis has found out. -/
structure Analysis where
  graph : CallGraph := ∅
  usage : ApiUsage := ∅

namespace Analysis

instance : EmptyCollection Analysis := ⟨{}⟩

variable (inputs : AnalysisInputs)

/-- Enter a body. -/
def enter (isPrimary : Bool) (a : Analysis) (body : Body) : Analysis where
  graph := a.graph.recordBody inputs.hierarchy.subtypes inputs.config.markers body
  usage :=
    a.usage.noteBody inputs.table inputs.hierarchy inputs.config.markers isPrimary body

/-- Enter the bodies of a unit that are not skipped. -/
def enterUnit (isPrimary : Bool) (a : Analysis) (bodies : List Body) : Analysis :=
  (bodies.filter fun body => !inputs.config.excludes body.signature).foldl
    (enter inputs isPrimary) a

/-- Expand constructors, once all units are in. -/
def finish (a : Analysis) : Analysis := { a with graph := a.graph.linkConstructors.1 }

/-- Classify the used methods. -/
def classify (a : Analysis) (table : LifetimeTable) (isLibrary : String → Bool) (w : LevelWindow) :
    Classification :=
  Grounds.classify ⟨a.graph, a.usage.callSites, table, isLibrary⟩ a.usage.used w

end Analysis

end ApiGuard
