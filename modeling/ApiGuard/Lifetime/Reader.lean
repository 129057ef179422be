/-
  ApiGuard.Lifetime.Reader
  ────────────────────────
  The text form of a table: a line for each entry, `SIGNATURE MIN MAX`.  What
  follows a `#` is a comment, and a line with nothing else is passed over.

  The signature of an entry runs from its `<` to the first `)>` after it, since
  names of constructors have a `>` of their own.
-/
import ApiGuard.Lifetime.Table

namespace ApiGuard

open Text

/-- One entry of the text form. -/
structure LifetimeEntry where
  /-- The signature as written. -/
  signature : String
  /-- The first level. -/
  min : ApiLevel
  /-- The last level. -/
  max : ApiLevel
  deriving DecidableEq, Repr

namespace LifetimeEntry

/-! ## §1. Entries. -/

/-- The characters up to and including the first `)>`, and the rest. -/
def upToClosing : List Char → Option (List Char × List Char)
  | ')' :: '>' :: rest => some ([')', '>'], rest)
  | c :: rest => (upToClosing rest).map fun (word, rest) => (c :: word, rest)
  | [] => none

/-- The signature at the start of `cs`, and the rest. -/
def scanSignature : List Char → Option (List Char × List Char)
  | '<' :: rest => (upToClosing rest).map fun (word, rest) => ('<' :: word, rest)
  | _ => none

/-- The level at the start of `cs`, and the rest.  A number that is no signed
integer of 64 bits is no level. -/
def scanLevel : List Char → Option (ApiLevel × List Char)
  | '?' :: rest => some (.unknown, rest)
  | cs => do
    let (i, rest) ← Decimal.scanSigned cs
    return (.ofInt (← Decimal.toInt64? i), rest)

/-- Read an entry that takes up the whole of `cs`. -/
def ofChars? (cs : List Char) : Option LifetimeEntry := do
  let (signature, cs) ← scanSignature (skipSpaces cs)
  let cs ← skipSpaces1 cs
  let (min, cs) ← scanLevel cs
  let cs ← skipSpaces1 cs
  let (max, cs) ← scanLevel cs
  guard (skipSpaces cs = [])
  return ⟨String.ofList signature, min, max⟩

end LifetimeEntry

/-! ## §2. Lines. -/

/-- What a line of the text form says. -/
inductive LifetimeLine where
  /-- Nothing: the line is blank before its comment. -/
  | blank
  | entry (e : LifetimeEntry)
  /-- Neither an entry nor blank. -/
  | malformed
  deriving DecidableEq, Repr

/-- Read a line. -/
def LifetimeLine.ofChars (line : List Char) : LifetimeLine :=
  let cs := line.takeWhile (· ≠ '#')
  if cs.all isBlank then .blank
  else
    match LifetimeEntry.ofChars? cs with
    | some e => .entry e
    | none => .malformed

/-- Why a text is no table: the first line that is malformed. -/
structure LifetimeError where
  /-- The number of the line, counted from 1. -/
  line : Nat
  /-- The whole line. -/
  content : String
  deriving DecidableEq, Repr

/-- The wording of an error. -/
def LifetimeError.message (e : LifetimeError) : String :=
  "parsing error at line " ++ toString e.line ++ ": " ++ e.content

namespace LifetimeTable

/-- Enter the lines into the table, the first of which has the given number. -/
def readLines (table : LifetimeTable) (number : Nat) :
    List (List Char) → Except LifetimeError LifetimeTable
  | [] => .ok table
  | line :: rest =>
    match LifetimeLine.ofChars line with
    | .blank => readLines table (number + 1) rest
    | .entry e => readLines (table.insert e.signature e.min e.max) (number + 1) rest
    | .malformed => .error ⟨number, String.ofList line⟩

/-- Read a table.  Of several entries for one signature the last one holds. -/
def parse (text : String) : Except LifetimeError LifetimeTable :=
  readLines ∅ 1 (lines text.toList)

end LifetimeTable

end ApiGuard
