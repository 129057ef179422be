/-
  ApiGuard.Bundle
  ───────────────
  Extracted applications, ready for analysis: every body is built.
-/
import ApiGuard.Analysis
import ApiGuard.Bundle.Document

namespace ApiGuard

/-- A unit of bytecode with its bodies. -/
structure BytecodeUnit where
  name : String
  /-- The declared classes, whose methods do not hold their statements any more. -/
  classes : List ClassDecl
  /-- The bodies of the methods that have one, class by class. -/
  bodies : List Body

/-- An extracted application. -/
structure Bundle where
  name : String
  manifest : Manifest
  /-- The unit with the main code. -/
  primary : BytecodeUnit
  /-- The other units, in order. -/
  secondary : List BytecodeUnit

/-- Why a text is no bundle. -/
inductive BundleError where
  /-- The text is no JSON document of the right form. -/
  | json
  /-- There is no unit. -/
  | noUnit (name : String)
  /-- The statements of a method make no body. -/
  | body (e : BodyError)
  deriving DecidableEq, Repr

/-- The wording of an error. -/
def BundleError.message : BundleError → String
  | .json => "malformed bundle"
  | .noUnit name => "bundle " ++ name ++ " contains no bytecode unit"
  | .body e => e.message

/-! ## §1. Loading. -/

/-- The methods of a unit that have statements, class by class. -/
def UnitDecl.written (u : UnitDecl) : List (String × List LabeledStatement) :=
  (u.classes.flatMap (·.methods)).filterMap fun m => m.body.map (m.signature, ·)

/-- The declaration of a class once the statements of its methods are taken out. -/
def ClassDecl.withoutBodies (c : ClassDecl) : ClassDecl :=
  { c with methods := c.methods.map fun m => { m with body := none } }

/-- Take the statements out of a unit and build its bodies.  Bodies may well be built at the
same time, and the error is then that of any method that fails; here it is always that of the
first. -/
def UnitDecl.load (u : UnitDecl) : Except BodyError BytecodeUnit := do
  let bodies ← u.written.mapM fun (signature, stmts) => Body.build signature stmts
  return ⟨u.name, u.classes.map ClassDecl.withoutBodies, bodies⟩

namespace Bundle

/-- Build the units of a document. -/
def ofDocument (d : BundleDocument) : Except BundleError Bundle :=
  match d.units with
  | [] => .error (.noUnit d.name)
  | first :: rest => do
    let primary ← first.load.mapError .body
    let secondary ← (rest.mapM UnitDecl.load).mapError .body
    return ⟨d.name, d.manifest, primary, secondary⟩

/-- Read a bundle. -/
def parse (text : String) : Except BundleError Bundle :=
  match BundleDocument.parse? text with
  | some d => ofDocument d
  | none => .error .json

/-! ## §2. Contents. -/

/-- All units, that with the main code first. -/
def units (b : Bundle) : List BytecodeUnit := b.primary :: b.secondary

/-- The classes of all units, in order. -/
def classes (b : Bundle) : List ClassDecl := b.units.flatMap (·.classes)

/-- The links that the declaration of a class gives. -/
def linksOf (c : ClassDecl) : List Link :=
  (c.superclass.map fun parent => ⟨c.name, parent, .superclass⟩).toList
    ++ c.interfaces.map fun parent => ⟨c.name, parent, .interface⟩

/-- The hierarchy of the declared classes: first all classes come up, and then
all links. -/
def hierarchy (b : Bundle) : Except HierarchyError Hierarchy := do
  let h := b.classes.foldl (fun h c => h.define c.name) (∅ : Hierarchy)
  let h ← (b.classes.flatMap linksOf).foldlM Hierarchy.link h
  return h.close

/-- Write a bundle: its name, and a line for each unit. -/
def render (b : Bundle) : String :=
  b.name ++ " units:\n" ++ String.join (b.units.map fun u =>
    "  - " ++ u.name ++ " (" ++ toString u.classes.length ++ " classes, "
      ++ toString u.bodies.length ++ " bodies)\n")

/-! ## §3. Analysis. -/

/-- Enter every unit of the bundle, and finish. -/
def analyze (b : Bundle) (inputs : AnalysisInputs) : Analysis :=
  (b.secondary.foldl (fun a u => a.enterUnit inputs false u.bodies)
    (Analysis.enterUnit inputs true ∅ b.primary.bodies)).finish

end Bundle

end ApiGuard
