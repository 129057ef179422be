/-
  ApiGuard.Json.Writer
  ────────────────────
  Writing JSON text, in one line (`Json.compact`) or with an indented line for
  each item (`Json.pretty`).
-/
import ApiGuard.Json.Basic

namespace ApiGuard.Json

/-! ## §1. Strings and numbers. -/

/-- A hexadecimal digit. -/
def hexDigit (n : Nat) : Char := if n < 10 then Char.ofNat (48 + n) else Char.ofNat (87 + n)

/-- A character as it stands in a string.  Quotes, backslashes and control
characters are escaped. -/
def escape (c : Char) : List Char :=
  if c = '"' then ['\\', '"']
  else if c = '\\' then ['\\', '\\']
  else if c = '\x08' then ['\\', 'b']
  else if c = '\x0c' then ['\\', 'f']
  else if c = '\n' then ['\\', 'n']
  else if c = '\r' then ['\\', 'r']
  else if c = '\t' then ['\\', 't']
  else if c.toNat < 0x20 then
    ['\\', 'u', '0', '0', hexDigit (c.toNat / 16), hexDigit (c.toNat % 16)]
  else [c]

/-- A text between quotes. -/
def quote (text : String) : String :=
  "\"" ++ String.ofList (text.toList.flatMap escape) ++ "\""

end Json

namespace JsonNumber

/-- Write a number.  One that is no integer is written with an exponent. -/
def render (n : JsonNumber) : String :=
  (if n.negative then "-" else "") ++ toString n.significand
    ++ (if n.isInteger then "" else "e" ++ toString n.exponent)

end JsonNumber

namespace Json

/-! ## §2. One line. -/

mutual

/-- Write a value without any white space. -/
def compact : Json → String
  | .null => "null"
  | .bool b => if b then "true" else "false"
  | .number n => n.render
  | .string text => quote text
  | .array items => "[" ++ ",".intercalate (compactItems items) ++ "]"
  | .object members => "\x7b" ++ ",".intercalate (compactMembers members) ++ "\x7d"
  | .unreadable => "\"\\ud800\""

/-- Write each item. -/
def compactItems : List Json → List String
  | [] => []
  | j :: rest => compact j :: compactItems rest

/-- Write each member. -/
def compactMembers : List (String × Json) → List String
  | [] => []
  | (name, j) :: rest => (quote name ++ ":" ++ compact j) :: compactMembers rest

end

/-! ## §3. One line for each item. -/

/-- A line break, and two spaces for each level. -/
def newline (level : Nat) : String := "\n" ++ String.ofList (List.replicate (2 * level) ' ')

/-- Parts on lines of their own between brackets; without parts the brackets
stand side by side. -/
def block (level : Nat) (opening closing : String) (parts : List String) : String :=
  if parts.isEmpty then opening ++ closing
  else
    opening ++ ",".intercalate (parts.map (newline (level + 1) ++ ·)) ++ newline level ++ closing

mutual

/-- Write a value that starts at the given level of indentation. -/
def prettyAt (level : Nat) : Json → String
  | .null => "null"
  | .bool b => if b then "true" else "false"
  | .number n => n.render
  | .string text => quote text
  | .array items => block level "[" "]" (prettyItems (level + 1) items)
  | .object members => block level "\x7b" "\x7d" (prettyMembers (level + 1) members)
  | .unreadable => "\"\\ud800\""

/-- Write each item. -/
def prettyItems (level : Nat) : List Json → List String
  | [] => []
  | j :: rest => prettyAt level j :: prettyItems level rest

/-- Write each member. -/
def prettyMembers (level : Nat) : List (String × Json) → List String
  | [] => []
  | (name, j) :: rest =>
    (quote name ++ ": " ++ prettyAt level j) :: prettyMembers level rest

end

/-- Write a value with two spaces of indentation for each level. -/
def pretty (j : Json) : String := prettyAt 0 j

end Json

end ApiGuard
