/-
  ApiGuard.Proofs.Regex.Engine
  ────────────────────────────
  The engine for regular expressions has the laws that are asked of engines.

  A regular expression means the parts of a text that its pattern spans.  Escaped texts are
  read as literals, which span their own occurrences, and after the mark of the start those
  at the start:

      eq_of_compile_escape, eq_of_compile_start   what an escaped text is read as
      matchesIn_iff                               what the search finds
      engine_isLawful                             the laws
-/
import ApiGuard.Proofs.Pattern.Matching
import ApiGuard.Proofs.Regex.Escape
import Mathlib.Data.List.Basic

namespace ApiGuard.Regex

variable {e : Regex} {text t : String} {p : Pattern} {cs before part after : List Char}

/-! ## §1. What is read from escaped texts. -/

/-- An expression is a pattern unless it is too deep or its automaton too large. -/
theorem compile_eq_ok_iff (hparse : parse? text = some e) :
    compile text = .ok p
      ↔ e.depth ≤ maxDepth ∧ Automaton.fits e.form = true ∧ e.form.toPattern = p := by
  rw [compile, hparse]
  show (if maxDepth < e.depth then _ else if Automaton.fits e.form = true then _ else _) = _ ↔ _
  split
  next hdeep => simp [Nat.not_le.mpr hdeep]
  next hdepth =>
      split
      next hfits => simp [Nat.not_lt.mp hdepth, hfits]
      next hfits => simp [hfits]

/-- What an escaped text is read as is its literal. -/
theorem eq_of_compile_escape (h : compile (escape t) = .ok p) : p = .literal t.toList := by
  obtain ⟨-, -, rfl⟩ := (compile_eq_ok_iff (parse?_escape t)).mp h
  cases t.toList with
  | nil => rfl
  | cons c cs => rw [form_letters, Form.toPattern]

/-- After the mark of the start it is the literal at the start, or just the mark. -/
theorem eq_of_compile_start (h : compile ("^" ++ escape t) = .ok p) :
    (t = "" ∧ p = .start) ∨ (t ≠ "" ∧ p = prefixPattern t) := by
  obtain ⟨-, -, rfl⟩ := (compile_eq_ok_iff (parse?_start t)).mp h
  rw [prefixPattern, Ne, ← String.toList_eq_nil_iff]
  cases t.toList with
  | nil => exact .inl ⟨rfl, rfl⟩
  | cons c cs =>
      rw [form_start]
      exact .inr ⟨List.cons_ne_nil c cs, rfl⟩

variable (hsize : 32 * t.utf8ByteSize + 208 ≤ Automaton.maxSize)

include hsize

/-- Escaped texts can be read if they are not too long for an automaton. -/
theorem exists_compile_escape : ∃ p, compile (escape t) = .ok p := by
  refine ⟨_, (compile_eq_ok_iff (parse?_escape t)).mpr ⟨?_, ?_, rfl⟩⟩
  · exact Nat.le_trans (depth_ofItems_le _) (by rw [depthList_letters]; decide)
  · have hbytes := length_utf8 t
    cases h : t.toList with
    | nil => decide
    | cons c cs =>
        rw [form_letters]
        exact fits_literal (h ▸ hbytes) hsize

theorem exists_compile_start : ∃ p, compile ("^" ++ escape t) = .ok p := by
  refine ⟨_, (compile_eq_ok_iff (parse?_start t)).mpr ⟨?_, ?_, rfl⟩⟩
  · exact Nat.le_trans (depth_ofItems_le _) (by rw [depthList, depthList_letters]; decide)
  · have hbytes := length_utf8 t
    cases h : t.toList with
    | nil => decide
    | cons c cs =>
        rw [form_start]
        exact fits_start (h ▸ hbytes) hsize

omit hsize

/-! ## §2. The laws. -/

/-- A pattern matches the part of a text that it spans. -/
def Matches : engine.Meaning := fun p before part after =>
  Pattern.Spans (before ++ part ++ after) p before.length (before ++ part).length

theorem matches_iff : Matches p before part after
    ↔ Pattern.Spans (before ++ part ++ after) p before.length (before ++ part).length := Iff.rfl

/-- A pattern matches in a text just if it spans some part of it. -/
theorem matchesIn_iff : Matches.MatchesIn p text ↔ p.MatchesIn text := by
  constructor
  · rintro ⟨before, part, after, htext, h⟩
    rw [matches_iff, ← htext] at h
    exact ⟨_, _, h⟩
  · rintro ⟨i, j, h⟩
    obtain ⟨n, rfl⟩ := Nat.exists_eq_add_of_le h.le.1
    have htext : text.toList = text.toList.take i ++ (text.toList.drop i).take n
        ++ text.toList.drop (i + n) := by
      rw [← List.take_add, List.take_append_drop]
    refine ⟨_, _, _, htext, ?_⟩
    rw [matches_iff, ← htext, ← List.take_add, List.length_take_of_le h.le.2,
      List.length_take_of_le (Nat.le_trans h.le.1 h.le.2)]
    exact h

/-- A literal matches the parts that are its text. -/
theorem matches_literal_iff : Matches (.literal cs) before part after ↔ part = cs := by
  rw [matches_iff, Pattern.spans_literal_iff, List.append_assoc, List.drop_left]
  simp only [List.length_append, Nat.add_left_cancel_iff]
  constructor
  · rintro ⟨-, hprefix, hlength⟩
    have hpart : cs <+: part :=
      List.prefix_of_prefix_length_le hprefix (List.prefix_append ..) (Nat.le_of_eq hlength.symm)
    exact (hpart.eq_of_length hlength.symm).symm
  · rintro rfl
    exact ⟨Nat.le_add_right .., List.prefix_append .., rfl⟩

theorem matches_start_iff : Matches .start before part after ↔ before = [] ∧ part = [] := by
  rw [matches_iff, Pattern.spans_start_iff, List.length_append, Nat.add_eq_zero_iff,
    List.length_eq_zero_iff, List.length_eq_zero_iff, ← and_assoc, and_self]

/-- After the mark of the start a pattern matches what it does otherwise, at the start only. -/
theorem matches_seq_start_iff :
    Matches (.seq .start p) before part after ↔ before = [] ∧ Matches p before part after := by
  rw [matches_iff, matches_iff, Pattern.spans_seq_iff]
  constructor
  · rintro ⟨k, hstart, h⟩
    obtain ⟨hbefore, rfl⟩ := Pattern.spans_start_iff.mp hstart
    cases List.eq_nil_of_length_eq_zero hbefore
    exact ⟨rfl, h⟩
  · rintro ⟨rfl, h⟩
    exact ⟨0, .start, h⟩

/-- The engine for regular expressions has the laws of engines. -/
theorem engine_isLawful : engine.IsLawful Matches where
  isMatch_iff p text := Pattern.isMatch_iff.trans matchesIn_iff.symm
  matches_escape h before part after := by
    rw [engine_compile, engine_escape] at h
    rw [eq_of_compile_escape h]
    exact matches_literal_iff
  matches_start hp hq before part after := by
    rw [engine_compile, engine_escape] at hp hq
    rw [eq_of_compile_escape hp]
    rcases eq_of_compile_start hq with ⟨rfl, rfl⟩ | ⟨-, rfl⟩
    · rw [matches_start_iff, matches_literal_iff]
      rfl
    · exact matches_seq_start_iff
  compile_escape {t} hlength := by
    have hsize : 32 * t.utf8ByteSize + 208 ≤ Automaton.maxSize := by
      rw [Automaton.maxSize]
      omega
    rw [engine_compile, engine_escape]
    exact ⟨exists_compile_escape hsize, exists_compile_start hsize⟩

end ApiGuard.Regex
