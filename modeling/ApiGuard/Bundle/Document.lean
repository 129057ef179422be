/-
  ApiGuard.Bundle.Document
  ────────────────────────
  The document that describes an extracted application: its units of bytecode
  with their classes, methods and statements, and its manifest.
-/
import ApiGuard.Bundle.Manifest
import ApiGuard.Json.Reader
import ApiGuard.Statement.Json

namespace ApiGuard

open Json

/-! ## §1. Declarations. -/

/-- A method; one that is abstract or native has no body. -/
structure MethodDecl where
  signature : String
  body : Option (List LabeledStatement) := none
  deriving DecidableEq, Repr

/-- A class. -/
structure ClassDecl where
  name : String
  superclass : Option String := none
  interfaces : List String := []
  methods : List MethodDecl := []
  deriving DecidableEq, Repr

/-- A unit of bytecode. -/
structure UnitDecl where
  name : String
  classes : List ClassDecl := []
  deriving DecidableEq, Repr

/-- An extracted application. -/
structure BundleDocument where
  name : String
  manifest : Manifest := {}
  units : List UnitDecl
  deriving DecidableEq, Repr

/-! ## §2. Reading. -/

/-- The number of levels that a statement may nest.  A document may nest 127
levels where its values are held, and its statements stand on the ninth. -/
def statementDepth : Nat := 119

/-- Read a statement of a document.  It is held before it is looked at. -/
def readStatement (j : Json) : Option LabeledStatement :=
  if j.isHeld statementDepth then LabeledStatement.ofJson? j else none

/-- Read a method. -/
def MethodDecl.ofJson? (j : Json) : Option MethodDecl := do
  match ← fields? ["signature", "body"] j with
  | [signature, body] =>
    return {
      signature := ← required? string? signature
      body := ← defaulted? none (nullable? (list? readStatement)) body }
  | _ => none

/-- Read a class. -/
def ClassDecl.ofJson? (j : Json) : Option ClassDecl := do
  match ← fields? ["name", "superclass", "interfaces", "methods"] j with
  | [name, superclass, interfaces, methods] =>
    return {
      name := ← required? string? name
      superclass := ← defaulted? none (nullable? string?) superclass
      interfaces := ← defaulted? [] (list? string?) interfaces
      methods := ← defaulted? [] (list? MethodDecl.ofJson?) methods }
  | _ => none

/-- Read a unit. -/
def UnitDecl.ofJson? (j : Json) : Option UnitDecl := do
  match ← fields? ["name", "classes"] j with
  | [name, classes] =>
    return {
      name := ← required? string? name
      classes := ← defaulted? [] (list? ClassDecl.ofJson?) classes }
  | _ => none

/-- Read a manifest. -/
def Manifest.ofJson? (j : Json) : Option Manifest := do
  match ← fields? ["min_sdk", "target_sdk", "max_sdk"] j with
  | [minSdk, targetSdk, maxSdk] =>
    return {
      minSdk := ← defaulted? none (nullable? uint32?) minSdk
      targetSdk := ← defaulted? none (nullable? uint32?) targetSdk
      maxSdk := ← defaulted? none (nullable? uint32?) maxSdk }
  | _ => none

namespace BundleDocument

/-- Read a document from a JSON value. -/
def ofJson? (j : Json) : Option BundleDocument := do
  match ← fields? ["name", "manifest", "units"] j with
  | [name, manifest, units] =>
    return {
      name := ← required? string? name
      manifest := ← defaulted? {} Manifest.ofJson? manifest
      units := ← required? (list? UnitDecl.ofJson?) units }
  | _ => none

/-- Read a document from its text. -/
def parse? (text : String) : Option BundleDocument := (Json.parse? text).bind ofJson?

end BundleDocument

end ApiGuard
