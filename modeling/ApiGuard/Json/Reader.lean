/-
  ApiGuard.Json.Reader
  ────────────────────
  Reading JSON text, strictly: one value with nothing but white space around
  it, no comments, no commas too many, no control characters in strings.
-/
import ApiGuard.Json.Basic
import ApiGuard.Text.Scan

namespace ApiGuard.Json

/-! ## §1. White space and literals. -/

/-- Is `c` white space in JSON text? -/
def isWhite (c : Char) : Bool := c == ' ' || c == '\n' || c == '\t' || c == '\r'

/-- Pass over white space. -/
def skipWhite (cs : List Char) : List Char := cs.dropWhile isWhite

/-- What follows the word `word`. -/
def scanWord (word : String) (cs : List Char) : Option (List Char) :=
  if word.toList.isPrefixOf cs then some (cs.drop word.length) else none

/-! ## §2. Numbers. -/

/-- The digits before the point, their number, and the rest. -/
def scanInteger : List Char → Option (List Char × List Char)
  | '0' :: rest => some (['0'], rest)
  | cs =>
    if cs.takeWhile Char.isDigit = [] then none
    else some (cs.takeWhile Char.isDigit, cs.dropWhile Char.isDigit)

/-- The digits after a point, if there is a point, and the rest. -/
def scanFraction : List Char → Option (List Char × List Char)
  | '.' :: cs =>
    if cs.takeWhile Char.isDigit = [] then none
    else some (cs.takeWhile Char.isDigit, cs.dropWhile Char.isDigit)
  | cs => some ([], cs)

/-- The exponent, if there is one, and the rest. -/
def scanExponent : List Char → Option (Option Int × List Char)
  | c :: cs =>
    if c = 'e' ∨ c = 'E' then
      match cs with
      | '+' :: cs => (Decimal.scan cs).map fun (n, rest) => (some n, rest)
      | cs => (Decimal.scanSigned cs).map fun (i, rest) => (some i, rest)
    else some (none, c :: cs)
  | [] => some (none, [])

/-- The number at the start of `cs` after its sign, and the rest.  Digits before
the point that the significand does not hold count as zeros, and those after the
point do not count. -/
def scanNumber (negative : Bool) (cs : List Char) : Option (JsonNumber × List Char) := do
  let (whole, cs) ← scanInteger cs
  let (fraction, cs) ← scanFraction cs
  let (exponent, cs) ← scanExponent cs
  let (significand, zeros) := Decimal.append 0 whole
  let (significand, ignored) := Decimal.append significand fraction
  return ({
    negative
    significand
    exponent := exponent.getD 0 + zeros.length + ignored.length - fraction.length
    isInteger := zeros.isEmpty && fraction.isEmpty && exponent.isNone }, cs)

/-! ## §3. Strings. -/

/-- What stands between the quotes of a string: characters, and the units of
16 bits that are written as `\u` escapes. -/
inductive Piece where
  | char (c : Char)
  | code (unit : Nat)
  deriving DecidableEq, Repr

/-- The value of a hexadecimal digit. -/
def hexDigit? (c : Char) : Option Nat :=
  if c.isDigit then some (c.toNat - '0'.toNat)
  else if 'a' ≤ c ∧ c ≤ 'f' then some (c.toNat - 'a'.toNat + 10)
  else if 'A' ≤ c ∧ c ≤ 'F' then some (c.toNat - 'A'.toNat + 10)
  else none

/-- The value of a list of hexadecimal digits, the most significant first. -/
def hexValue? (digits : List Char) : Option Nat :=
  digits.foldlM (fun n c => (hexDigit? c).map (16 * n + ·)) 0

/-- The character that a letter stands for after a backslash. -/
def escape? : Char → Option Char
  | '"' => some '"'
  | '\\' => some '\\'
  | '/' => some '/'
  | 'b' => some '\x08'
  | 'f' => some '\x0c'
  | 'n' => some '\n'
  | 'r' => some '\r'
  | 't' => some '\t'
  | _ => none

/-- The pieces up to the closing quote, and what follows it. -/
def scanPieces : List Char → Option (List Piece × List Char)
  | '"' :: rest => some ([], rest)
  | '\\' :: 'u' :: a :: b :: c :: d :: rest => do
    let unit ← hexValue? [a, b, c, d]
    let (pieces, rest) ← scanPieces rest
    return (.code unit :: pieces, rest)
  | '\\' :: e :: rest => do
    let c ← escape? e
    let (pieces, rest) ← scanPieces rest
    return (.char c :: pieces, rest)
  | c :: rest =>
    if c.toNat < 0x20 then none
    else (scanPieces rest).map fun (pieces, rest) => (.char c :: pieces, rest)
  | [] => none

/-- Is the unit the first half of a surrogate pair? -/
def isHighHalf (unit : Nat) : Bool := 0xD800 ≤ unit && unit ≤ 0xDBFF

/-- Is the unit the second half of a surrogate pair? -/
def isLowHalf (unit : Nat) : Bool := 0xDC00 ≤ unit && unit ≤ 0xDFFF

/-- The text of the pieces, if no half of a surrogate pair is alone. -/
def textOf? : List Piece → Option (List Char)
  | [] => some []
  | .char c :: rest => (textOf? rest).map (c :: ·)
  | .code high :: .code low :: rest =>
    if isHighHalf high && isLowHalf low then
      (textOf? rest).map
        (Char.ofNat (0x10000 + (high - 0xD800) * 0x400 + (low - 0xDC00)) :: ·)
    else if isHighHalf high || isLowHalf high then none
    else (textOf? (.code low :: rest)).map (Char.ofNat high :: ·)
  | .code unit :: rest =>
    if isHighHalf unit || isLowHalf unit then none
    else (textOf? rest).map (Char.ofNat unit :: ·)

/-- The string at the start of `cs` after its opening quote, and the rest.  The
text is `none` if the string denotes none. -/
def scanString (cs : List Char) : Option (Option String × List Char) :=
  (scanPieces cs).map fun (pieces, rest) => ((textOf? pieces).map String.ofList, rest)

/-! ## §4. Values. -/

/-- The object with the given members, of which the names are `none` where they
denote no text. -/
def ofMembers (members : List (Option String × Json)) : Json :=
  match members.mapM fun (name, j) => name.map (·, j) with
  | some members => .object members
  | none => .unreadable

mutual

/-- The value at the start of `cs`, and the rest.  The first argument bounds
the number of nested calls. -/
def scanValue : Nat → List Char → Option (Json × List Char)
  | 0, _ => none
  | fuel + 1, cs =>
    match skipWhite cs with
    | '{' :: rest =>
      match skipWhite rest with
      | '}' :: rest => some (.object [], rest)
      | rest => (scanMembers fuel rest).map fun (members, rest) => (ofMembers members, rest)
    | '[' :: rest =>
      match skipWhite rest with
      | ']' :: rest => some (.array [], rest)
      | rest => (scanItems fuel rest).map fun (items, rest) => (.array items, rest)
    | '"' :: rest =>
      (scanString rest).map fun (text, rest) =>
        (match text with | some text => .string text | none => .unreadable, rest)
    | '-' :: rest => (scanNumber true rest).map fun (n, rest) => (.number n, rest)
    | 't' :: rest => (scanWord "rue" rest).map fun rest => (.bool true, rest)
    | 'f' :: rest => (scanWord "alse" rest).map fun rest => (.bool false, rest)
    | 'n' :: rest => (scanWord "ull" rest).map fun rest => (.null, rest)
    | cs => (scanNumber false cs).map fun (n, rest) => (.number n, rest)

/-- The items of an array, at least one, and what follows the closing bracket. -/
def scanItems : Nat → List Char → Option (List Json × List Char)
  | 0, _ => none
  | fuel + 1, cs => do
    let (item, cs) ← scanValue fuel cs
    match skipWhite cs with
    | ',' :: rest =>
      let (items, rest) ← scanItems fuel rest
      return (item :: items, rest)
    | ']' :: rest => return ([item], rest)
    | _ => none

/-- The members of an object, at least one, and what follows the closing brace. -/
def scanMembers : Nat → List Char → Option (List (Option String × Json) × List Char)
  | 0, _ => none
  | fuel + 1, cs => do
    let cs ← Text.expect '"' (skipWhite cs)
    let (name, cs) ← scanString cs
    let cs ← Text.expect ':' (skipWhite cs)
    let (value, cs) ← scanValue fuel cs
    match skipWhite cs with
    | ',' :: rest =>
      let (members, rest) ← scanMembers fuel rest
      return ((name, value) :: members, rest)
    | '}' :: rest => return ([(name, value)], rest)
    | _ => none

end

/-- Read a text that is one JSON value.  A call either takes a character or is
for the first part of an array or an object, so twice as many nested calls as
there are characters are enough. -/
def parse? (text : String) : Option Json := do
  let cs := text.toList
  let (value, rest) ← scanValue (2 * cs.length + 2) cs
  guard (skipWhite rest = [])
  return value

end ApiGuard.Json
