/-
  ApiGuard.PatternEngine
  ──────────────────────
  What reads patterns and looks for them in texts.

  How patterns are written and searched for is no part of the analysis, which only asks whether
  a text can be read as a pattern and whether a pattern matches in a name.  So the engine is a
  parameter, and what the analysis relies on are laws of it (`IsLawful`): it looks for a
  pattern everywhere in a text, `^` is the start of the text, and an escaped text matches
  itself.
-/

namespace ApiGuard

/-- What reads patterns and looks for them in texts. -/
structure PatternEngine where
  /-- Patterns that have been read. -/
  Pattern : Type
  /-- Why a text cannot be read as a pattern. -/
  Error : Type
  /-- Read a pattern. -/
  compile : String → Except Error Pattern
  /-- Does the pattern match somewhere in the text? -/
  isMatch : Pattern → String → Bool
  /-- Take away the meaning that the characters of a text have in patterns. -/
  escape : String → String

namespace PatternEngine

/-- What patterns mean: whether one matches the second of three parts of a text. -/
abbrev Meaning (E : PatternEngine) := E.Pattern → List Char → List Char → List Char → Prop

/-- The pattern matches some part of the text. -/
def Meaning.MatchesIn {E : PatternEngine} (Matches : E.Meaning) (p : E.Pattern) (text : String) :
    Prop :=
  ∃ before part after, text.toList = before ++ part ++ after ∧ Matches p before part after

/-- What is known of an engine whose patterns have the given meaning. -/
structure IsLawful (E : PatternEngine) (Matches : E.Meaning) : Prop where
  /-- A pattern is looked for everywhere in a text. -/
  isMatch_iff (p : E.Pattern) (text : String) :
    E.isMatch p text = true ↔ Matches.MatchesIn p text
  /-- An escaped text matches itself, wherever it stands, and nothing else. -/
  matches_escape {text : String} {p : E.Pattern} : E.compile (E.escape text) = .ok p →
    ∀ before part after, Matches p before part after ↔ part = text.toList
  /-- After `^` an escaped text matches what it does otherwise, at the start only. -/
  matches_start {text : String} {p q : E.Pattern} : E.compile (E.escape text) = .ok p →
    E.compile ("^" ++ E.escape text) = .ok q →
    ∀ before part after, Matches q before part after ↔ before = [] ∧ Matches p before part after
  /-- Escaped texts can be read, also after `^`.  Engines may bound the size of a pattern, so
  this is asked of texts of moderate length only. -/
  compile_escape {text : String} : text.utf8ByteSize ≤ 1024 →
    (∃ p, E.compile (E.escape text) = .ok p) ∧ ∃ q, E.compile ("^" ++ E.escape text) = .ok q

end PatternEngine

end ApiGuard
