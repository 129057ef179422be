/-
  ApiGuard.Regex.Engine
  ─────────────────────
  An engine for regular expressions.

  It reads what is written in the syntax of `ApiGuard.Regex.Reader`, which has no classes such
  as `\d`, no word boundaries, no names of groups and no flags but `i`, and refuses any other
  text.  The program runs with it; what is shown of libraries holds for every engine.
-/
import ApiGuard.Libraries
import ApiGuard.Regex.Reader
import ApiGuard.Regex.Size

namespace ApiGuard

/-- Why a text is not read as a pattern. -/
inductive PatternError where
  /-- The text is no pattern, or is written in other syntax. -/
  | unreadable (text : String)
  /-- The pattern nests too deep. -/
  | tooDeep
  /-- The automaton of the pattern would be too large. -/
  | tooLarge
  deriving DecidableEq, Repr

/-- The wording of an error. -/
def PatternError.message : PatternError → String
  | .unreadable text => "cannot read pattern: " ++ text
  | .tooDeep => s!"pattern nests deeper than {Regex.maxDepth} levels"
  | .tooLarge => s!"pattern needs more than {Regex.Automaton.maxSize} bytes"

namespace Regex

/-- Read an expression, unless it is too large. -/
def compile (text : String) : Except PatternError Pattern :=
  match parse? text with
  | none => .error (.unreadable text)
  | some e =>
    if maxDepth < e.depth then .error .tooDeep
    else if Automaton.fits e.form then .ok e.form.toPattern
    else .error .tooLarge

/-- The characters with a meaning of their own, in expressions of any kind. -/
def metaChars : List Char :=
  ['\\', '.', '+', '*', '?', '(', ')', '|', '[', ']', '\x7b', '\x7d', '^', '$', '#', '&', '-', '~']

/-- A character that stands for itself. -/
def escapeChar (c : Char) : List Char := if c ∈ metaChars then ['\\', c] else [c]

/-- Characters that stand for themselves. -/
def escapeChars (text : List Char) : List Char := text.flatMap escapeChar

/-- A text that stands for itself. -/
def escape (text : String) : String := String.ofList (escapeChars text.toList)

/-- The pattern of the texts that begin with the given one. -/
def prefixPattern (text : String) : Pattern := .seq .start (.literal text.toList)

/-- Regular expressions, with the patterns that they stand for. -/
def engine : PatternEngine where
  Pattern := Pattern
  Error := PatternError
  compile := compile
  isMatch := Pattern.isMatch
  escape := escape

theorem engine_compile : engine.compile = compile := rfl

theorem engine_escape : engine.escape = escape := rfl

end Regex

/-- Libraries whose patterns are regular expressions. -/
abbrev Libraries := Regex.engine.Libraries

/-- The well known libraries, whose patterns need not be read. -/
def Libraries.wellKnown : Libraries :=
  ⟨PatternEngine.Libraries.namespaces.map Regex.prefixPattern⟩

end ApiGuard
