/-
  ApiGuard.Signature
  ──────────────────
  Method signatures, written `<declaring.Class: ret name(p1,p2)>`.

  `Signature.parse?` reads a signature into its parts and `Signature.render`
  writes it.  The analyses keep signatures as they are written and never
  require them to be well formed; the functions of §3 take the few parts they
  need straight from the text.
-/
import ApiGuard.Text
import ApiGuard.Text.Scan

namespace ApiGuard

open Text

/-- The parts of a method signature. -/
structure Signature where
  /-- The declaring class. -/
  className : String
  /-- The type of the result. -/
  returnType : String
  /-- The name of the method. -/
  name : String
  /-- The types of the parameters, in order. -/
  parameters : List String
  deriving DecidableEq, Repr

/-- Why a text is no method signature. -/
inductive SignatureError where
  /-- The text does not have the form of a signature. -/
  | malformed (text : String)
  deriving DecidableEq, Repr

/-- The wording of an error. -/
def SignatureError.message : SignatureError → String
  | .malformed text => "invalid method signature: " ++ text

namespace Signature

/-- The name under which a class declares its constructors. -/
def constructorName : String := "<init>"

/-! ## §1. Reading. -/

/-- Does the character end a piece of a parameter list? -/
def endsPiece (c : Char) : Bool := c == ',' || c == ')'

/-- The pieces at the front of a parameter list, each of at least one character,
and the rest.  A comma goes with the piece after it, and is left if there is
none. -/
def scanPieces (cs : List Char) : List (List Char) × List Char :=
  match _ : wordBefore endsPiece cs with
  | none => ([], cs)
  | some (piece, ',' :: rest) =>
    match scanPieces rest with
    | ([], _) => ([piece], ',' :: rest)
    | (pieces, rest) => (piece :: pieces, rest)
  | some (piece, rest) => ([piece], rest)
termination_by cs.length
decreasing_by
  next hread => exact Nat.lt_of_succ_lt (length_lt_of_wordBefore hread)

/-- Read a signature that takes up the whole of `cs`. -/
def ofChars? (cs : List Char) : Option Signature := do
  let cs ← expect '<' cs
  let (className, cs) ← wordBefore (· == ':') cs
  let cs ← expect ':' cs
  let cs ← expect ' ' cs
  let (returnType, cs) ← wordBefore (· == ' ') cs
  let cs ← expect ' ' cs
  let (name, cs) ← wordBefore (· == '(') cs
  let cs ← expect '(' cs
  let (pieces, cs) := scanPieces cs
  let cs ← expect ')' cs
  let cs ← expect '>' cs
  guard (cs = [])
  return {
    className := String.ofList className
    returnType := String.ofList returnType
    name := String.ofList name
    parameters := pieces.map fun piece => String.ofList (trim piece) }

/-- Read a signature. -/
def parse? (text : String) : Option Signature := ofChars? text.toList

/-- Read a signature, or say why the text is none. -/
def parse (text : String) : Except SignatureError Signature :=
  match parse? text with
  | some sig => .ok sig
  | none => .error (.malformed text)

/-! ## §2. Writing. -/

/-- Write a signature. -/
def render (sig : Signature) : String :=
  "<" ++ sig.className ++ ": " ++ sig.returnType ++ " " ++ sig.name ++ "("
    ++ ",".intercalate sig.parameters ++ ")>"

/-- Is the method a constructor? -/
def isConstructor (sig : Signature) : Bool := sig.name == constructorName

/-! ## §3. Parts of the text. -/

/-- The declaring class of a signature as written: what stands between the
opening `<` and the first colon, or nothing. -/
def declaringClass (text : String) : String :=
  match text.toList with
  | '<' :: rest => if ':' ∈ rest then String.ofList (rest.takeWhile (· ≠ ':')) else ""
  | _ => ""

/-- The same method in another class.  A text that names no class stays. -/
def inClass (text className : String) : String :=
  if declaringClass text = "" then text
  else "<" ++ className ++ String.ofList (text.toList.dropWhile (· ≠ ':'))

/-- Does the text denote a constructor?  A malformed signature does if the name
of constructors occurs in it. -/
def denotesConstructor (text : String) : Bool :=
  match parse? text with
  | some sig => sig.isConstructor
  | none => mentions text constructorName

/-- The spelling under which lifetimes are kept: a nested class is separated
from its outer class by a dot, where bytecode has a dollar sign. -/
def canonical (text : String) : String := replaceChar '$' '.' text

end Signature

end ApiGuard
