/-
  ApiGuard.Proofs.Lifetime.Entries
  ────────────────────────────────
  The grammar of an entry in the text form of a table.

  An entry is a signature and two levels with spaces or tabs between them, and perhaps
  around them.  Each part is read as far as it goes, and none can be read in two ways:

      Decimal.scanSigned_eq_some_iff   numerals
      scanLevel_of_isLevelText         levels
      scanSignature_eq_some_iff        signatures, up to the first closing
      ofChars?_eq_some_iff             what is read as an entry is what is one
-/
import ApiGuard.Lifetime.Reader
import ApiGuard.Proofs.Text.Scan
import Mathlib.Data.Option.Basic

namespace ApiGuard

open Text

/-! ## §1. Numerals. -/

namespace Decimal

/-- ASCII digits, at least one. -/
structure IsDigits (cs : List Char) : Prop where
  ne_nil : cs ≠ []
  isDigit : ∀ c ∈ cs, c.isDigit = true

/-- The numeral is digits, which a minus sign may precede, and has this value. -/
inductive IsNumeral : List Char → Int → Prop
  | plain {ds : List Char} : IsDigits ds → IsNumeral ds (value ds)
  | minus {ds : List Char} : IsDigits ds → IsNumeral ('-' :: ds) (-(value ds : Int))

variable {cs rest : List Char} {n : Nat} {i : Int}

/-- A number is read from all the digits that come first, of which there is one at least. -/
theorem scan_eq_some_iff :
    scan cs = some (n, rest)
      ↔ ∃ ds, IsDigits ds ∧ n = value ds ∧ Stops Char.isDigit rest ∧ cs = ds ++ rest := by
  unfold scan
  constructor
  · intro hscan
    split at hscan
    next => cases hscan
    next hne =>
        cases hscan
        exact ⟨_, ⟨hne, fun c hc => List.mem_takeWhile_imp hc⟩, rfl, stops_dropWhile _ _,
          List.takeWhile_append_dropWhile.symm⟩
  · rintro ⟨ds, hds, rfl, hstop, rfl⟩
    rw [takeWhile_append hds.isDigit hstop, dropWhile_append hds.isDigit hstop,
      if_neg hds.ne_nil]

/-- A minus sign is no digit. -/
theorem IsDigits.ne_minus {ds tail : List Char} (hds : IsDigits ds) :
    ds ++ rest ≠ '-' :: tail := by
  obtain ⟨d, ds, rfl⟩ := List.exists_cons_of_ne_nil hds.ne_nil
  intro heq
  obtain rfl : d = '-' := (List.cons.inj heq).1
  exact absurd (hds.isDigit '-' List.mem_cons_self) (by decide)

/-- A number with a sign is read from a numeral that no digit follows. -/
theorem scanSigned_eq_some_iff :
    scanSigned cs = some (i, rest)
      ↔ ∃ w, IsNumeral w i ∧ Stops Char.isDigit rest ∧ cs = w ++ rest := by
  unfold scanSigned
  split
  next tail =>
      simp only [Option.map_eq_some_iff, Prod.exists, scan_eq_some_iff]
      constructor
      · rintro ⟨_, _, ⟨ds, hds, rfl, hstop, rfl⟩, heq⟩
        cases heq
        exact ⟨_, .minus hds, hstop, rfl⟩
      · rintro ⟨w, hnumeral, hstop, heq⟩
        cases hnumeral with
        | plain hds => exact absurd heq.symm hds.ne_minus
        | minus hds =>
            exact ⟨_, _, ⟨_, hds, rfl, hstop, (List.cons.inj heq).2⟩, rfl⟩
  next hnot =>
      simp only [Option.map_eq_some_iff, Prod.exists, scan_eq_some_iff]
      constructor
      · rintro ⟨_, _, ⟨ds, hds, rfl, hstop, rfl⟩, heq⟩
        cases heq
        exact ⟨_, .plain hds, hstop, rfl⟩
      · rintro ⟨w, hnumeral, hstop, rfl⟩
        cases hnumeral with
        | plain hds => exact ⟨_, _, ⟨_, hds, rfl, hstop, rfl⟩, rfl⟩
        | minus hds => exact absurd rfl (hnot _)

end Decimal

/-! ## §2. Gaps. -/

namespace Text

variable {cs rest : List Char}

/-- Spaces and tabs. -/
def IsGap (cs : List Char) : Prop := ∀ c ∈ cs, c = ' ' ∨ c = '\t'

theorem isSpaceOrTab_iff {c : Char} : isSpaceOrTab c = true ↔ c = ' ' ∨ c = '\t' := by
  unfold isSpaceOrTab
  rw [Bool.or_eq_true, beq_iff_eq, beq_iff_eq]

theorem skipSpaces_eq_iff :
    skipSpaces cs = rest ↔ ∃ gap, IsGap gap ∧ Stops isSpaceOrTab rest ∧ cs = gap ++ rest := by
  unfold skipSpaces
  constructor
  · rintro rfl
    exact ⟨cs.takeWhile isSpaceOrTab, fun c hc => isSpaceOrTab_iff.mp (List.mem_takeWhile_imp hc),
      stops_dropWhile _ _, List.takeWhile_append_dropWhile.symm⟩
  · rintro ⟨gap, hgap, hstop, rfl⟩
    exact dropWhile_append (fun c hc => isSpaceOrTab_iff.mpr (hgap c hc)) hstop

/-- Skipped are all the spaces that come first, of which there is one at least. -/
theorem skipSpaces1_eq_some_iff :
    skipSpaces1 cs = some rest
      ↔ ∃ gap, IsGap gap ∧ gap ≠ [] ∧ Stops isSpaceOrTab rest ∧ cs = gap ++ rest := by
  cases cs with
  | nil =>
      refine iff_of_false (by simp [skipSpaces1]) ?_
      rintro ⟨gap, _, hne, _, heq⟩
      exact hne (List.append_eq_nil_iff.mp heq.symm).1
  | cons c cs =>
      rw [skipSpaces1]
      constructor
      · intro hskip
        split at hskip
        next hc =>
            obtain ⟨gap, hgap, hstop, rfl⟩ := skipSpaces_eq_iff.mp (Option.some.inj hskip)
            exact ⟨c :: gap, List.forall_mem_cons.mpr ⟨isSpaceOrTab_iff.mp hc, hgap⟩,
              List.cons_ne_nil _ _, hstop, rfl⟩
        next => cases hskip
      · rintro ⟨gap, hgap, hne, hstop, heq⟩
        obtain ⟨d, gap, rfl⟩ := List.exists_cons_of_ne_nil hne
        obtain ⟨rfl, rfl⟩ := List.cons.inj heq
        obtain ⟨hc, hgap⟩ := List.forall_mem_cons.mp hgap
        exact (if_pos (isSpaceOrTab_iff.mpr hc)).trans
          (congrArg some (skipSpaces_eq_iff.mpr ⟨gap, hgap, hstop, rfl⟩))

end Text

/-! ## §3. Levels. -/

/-- The text of a level: a question mark, or a numeral that is a signed integer of 64 bits.
The level is known if it is an unsigned integer of 32 bits. -/
inductive IsLevelText : List Char → ApiLevel → Prop
  | mark : IsLevelText ['?'] .unknown
  | known {cs : List Char} {n : Nat} : Decimal.IsNumeral cs n → n ≤ Decimal.maxUInt32 →
      IsLevelText cs (.known n)
  | outside {cs : List Char} {i : Int} : Decimal.IsNumeral cs i → Decimal.minInt64 ≤ i →
      i ≤ Decimal.maxInt64 → i < 0 ∨ Decimal.maxUInt32 < i → IsLevelText cs .unknown

namespace LifetimeEntry

variable {cs w rest : List Char} {level : ApiLevel}

theorem isLevelText_ofInt {i : Int} (hnumeral : Decimal.IsNumeral cs i)
    (hmin : Decimal.minInt64 ≤ i) (hmax : i ≤ Decimal.maxInt64) :
    IsLevelText cs (.ofInt i) := by
  unfold ApiLevel.ofInt Decimal.toUInt32?
  by_cases hword : 0 ≤ i ∧ i ≤ Decimal.maxUInt32
  · obtain ⟨n, rfl⟩ := Int.eq_ofNat_of_zero_le hword.1
    rw [if_pos hword]
    exact .known hnumeral (by omega)
  · rw [if_neg hword]
    exact .outside hnumeral hmin hmax (by omega)

/-- What is read as a level is the text of this level. -/
theorem isLevelText_of_scanLevel (hscan : scanLevel cs = some (level, rest)) :
    ∃ w, IsLevelText w level ∧ cs = w ++ rest := by
  unfold scanLevel at hscan
  split at hscan
  next tail =>
      cases hscan
      exact ⟨['?'], .mark, rfl⟩
  next =>
      obtain ⟨⟨i, tail⟩, hsigned, hscan⟩ := Option.bind_eq_some_iff.mp hscan
      obtain ⟨j, hj, hscan⟩ := Option.bind_eq_some_iff.mp hscan
      obtain ⟨w, hnumeral, _, rfl⟩ := Decimal.scanSigned_eq_some_iff.mp hsigned
      unfold Decimal.toInt64? at hj
      split at hj
      next hword =>
          cases hj
          cases hscan
          exact ⟨w, isLevelText_ofInt hnumeral hword.1 hword.2, rfl⟩
      next => cases hj

/-- A numeral of an integer that fits 64 bits is read as its level. -/
theorem scanLevel_of_isNumeral {i : Int} (hnumeral : Decimal.IsNumeral w i)
    (hmin : Decimal.minInt64 ≤ i) (hmax : i ≤ Decimal.maxInt64) (hstop : Stops Char.isDigit rest) :
    scanLevel (w ++ rest) = some (.ofInt i, rest) := by
  have hmark : ∀ tail, w ++ rest ≠ '?' :: tail := by
    intro tail heq
    cases hnumeral with
    | plain hds =>
        obtain ⟨d, ds, rfl⟩ := List.exists_cons_of_ne_nil hds.ne_nil
        obtain rfl : d = '?' := (List.cons.inj heq).1
        exact absurd (hds.isDigit '?' List.mem_cons_self) (by decide)
    | minus hds => exact absurd (List.cons.inj heq).1 (by decide)
  have hsigned := Decimal.scanSigned_eq_some_iff.mpr ⟨w, hnumeral, hstop, rfl⟩
  have hword : Decimal.toInt64? i = some i := if_pos ⟨hmin, hmax⟩
  unfold scanLevel
  split
  next tail heq => exact absurd heq (hmark tail)
  next =>
      rw [hsigned]
      show (Decimal.toInt64? i).bind (fun i => some (ApiLevel.ofInt i, rest)) = _
      rw [hword]
      rfl

/-- The text of a level is read as this level, unless further digits follow. -/
theorem scanLevel_of_isLevelText (hlevel : IsLevelText w level)
    (hstop : Stops Char.isDigit rest) : scanLevel (w ++ rest) = some (level, rest) := by
  cases hlevel with
  | mark => rfl
  | @known _ n hnumeral hn =>
      have hword : (0 : Int) ≤ n ∧ (n : Int) ≤ Decimal.maxUInt32 := ⟨by omega, by omega⟩
      have hmax : (n : Int) ≤ Decimal.maxInt64 := Int.le_trans hword.2 (by decide)
      rw [scanLevel_of_isNumeral hnumeral (Int.le_trans (by decide) hword.1) hmax hstop]
      unfold ApiLevel.ofInt Decimal.toUInt32?
      rw [if_pos hword]
      rfl
  | @outside _ i hnumeral hmin hmax hnot =>
      rw [scanLevel_of_isNumeral hnumeral hmin hmax hstop]
      unfold ApiLevel.ofInt Decimal.toUInt32?
      rw [if_neg (by omega)]

/-! ## §4. Signatures. -/

/-- The text ends with a closing and has no other one before. -/
def EndsAtClosing (cs : List Char) : Prop :=
  ∃ body, cs = body ++ [')', '>'] ∧ ¬ [')', '>'] <:+: body ++ [')']

/-- The text of a signature: from its opening up to and including the first closing. -/
def IsSignatureText (cs : List Char) : Prop := ∃ tail, cs = '<' :: tail ∧ EndsAtClosing tail

theorem not_endsAtClosing_nil : ¬ EndsAtClosing [] := by
  rintro ⟨body, heq, _⟩
  simp at heq

/-- A text ends at a closing if it is one, or if it does so after a character that does not
open an earlier one. -/
theorem endsAtClosing_cons {c : Char} :
    EndsAtClosing (c :: w)
      ↔ (c = ')' ∧ w = ['>']) ∨ (EndsAtClosing w ∧ ¬ (c = ')' ∧ ['>'] <+: w)) := by
  have hhead : ∀ body : List Char, ['>'] <+: body ++ [')'] ↔ ['>'] <+: body ++ [')', '>'] := by
    intro body
    cases body with
    | nil => simp
    | cons b body => simp [List.cons_prefix_cons]
  unfold EndsAtClosing
  constructor
  · rintro ⟨body, heq, hnot⟩
    cases body with
    | nil => exact .inl (by simpa using heq)
    | cons b body =>
        obtain ⟨rfl, rfl⟩ := List.cons.inj heq
        rw [List.cons_append, List.infix_cons_iff, not_or, List.cons_prefix_cons, hhead] at hnot
        exact .inr ⟨⟨body, rfl, hnot.2⟩, fun ⟨hc, hprefix⟩ => hnot.1 ⟨hc.symm, hprefix⟩⟩
  · rintro (⟨rfl, rfl⟩ | ⟨⟨body, rfl, hnot⟩, hclosing⟩)
    · exact ⟨[], rfl, by decide⟩
    · refine ⟨c :: body, rfl, ?_⟩
      rw [List.cons_append, List.infix_cons_iff, not_or, List.cons_prefix_cons, hhead]
      exact ⟨fun ⟨hc, hprefix⟩ => hclosing ⟨hc.symm, hprefix⟩, hnot⟩

/-- What is read is the part up to the first closing, and it is read whatever follows. -/
theorem upToClosing_eq_some_iff :
    ∀ {w rest : List Char},
      upToClosing cs = some (w, rest) ↔ EndsAtClosing w ∧ cs = w ++ rest := by
  fun_induction upToClosing cs with
  | case1 tail =>
      intro w rest
      constructor
      · intro hread
        cases hread
        exact ⟨endsAtClosing_cons.mpr (.inl ⟨rfl, rfl⟩), rfl⟩
      · rintro ⟨hends, heq⟩
        obtain _ | ⟨c, w⟩ := w
        · exact absurd hends not_endsAtClosing_nil
        · obtain ⟨rfl, htail⟩ := List.cons.inj heq
          rcases endsAtClosing_cons.mp hends with ⟨_, rfl⟩ | ⟨hends, hclosing⟩
          · rw [show tail = rest from (List.cons.inj htail).2]
          · -- the closing at the start would be an earlier one
            obtain _ | ⟨d, w⟩ := w
            · exact absurd hends not_endsAtClosing_nil
            · have hd : '>' = d := (List.cons.inj htail).1
              exact absurd ⟨rfl, List.cons_prefix_cons.mpr ⟨hd, List.nil_prefix⟩⟩ hclosing
  | case2 c tail hnot ih =>
      intro w rest
      simp only [Option.map_eq_some_iff, Prod.exists, ih]
      constructor
      · rintro ⟨w', _, ⟨hends, rfl⟩, heq⟩
        cases heq
        refine ⟨endsAtClosing_cons.mpr (.inr ⟨hends, ?_⟩), rfl⟩
        rintro ⟨rfl, w, rfl⟩
        exact hnot _ rfl rfl
      · rintro ⟨hends, heq⟩
        obtain _ | ⟨d, w⟩ := w
        · exact absurd hends not_endsAtClosing_nil
        · obtain ⟨rfl, rfl⟩ := List.cons.inj heq
          rcases endsAtClosing_cons.mp hends with ⟨rfl, rfl⟩ | ⟨hends, _⟩
          · exact absurd rfl (hnot _ rfl)
          · exact ⟨w, rest, ⟨hends, rfl⟩, rfl⟩
  | case3 =>
      intro w rest
      refine iff_of_false (by simp) ?_
      rintro ⟨hends, heq⟩
      obtain ⟨rfl, _⟩ := List.append_eq_nil_iff.mp heq.symm
      exact not_endsAtClosing_nil hends

/-- A signature is read from an opening up to the first closing after it. -/
theorem scanSignature_eq_some_iff :
    scanSignature cs = some (w, rest) ↔ IsSignatureText w ∧ cs = w ++ rest := by
  unfold scanSignature IsSignatureText
  split
  next tail =>
      simp only [Option.map_eq_some_iff, Prod.exists, upToClosing_eq_some_iff]
      constructor
      · rintro ⟨w', _, ⟨hends, rfl⟩, heq⟩
        cases heq
        exact ⟨⟨w', rfl, hends⟩, rfl⟩
      · rintro ⟨⟨w', rfl, hends⟩, heq⟩
        exact ⟨w', rest, ⟨hends, (List.cons.inj heq).2⟩, rfl⟩
  next hnot =>
      refine iff_of_false (by simp) ?_
      rintro ⟨⟨w', rfl, _⟩, rfl⟩
      exact hnot _ rfl

/-! ## §5. Entries. -/

/-- The text has a signature and two levels, with gaps between them and perhaps around
them. -/
inductive IsEntry : List Char → LifetimeEntry → Prop
  | intro {before signature gap first gap' last after : List Char} {min max : ApiLevel} :
      IsGap before → IsSignatureText signature → IsGap gap → gap ≠ [] → IsLevelText first min →
      IsGap gap' → gap' ≠ [] → IsLevelText last max → IsGap after →
      IsEntry (before ++ (signature ++ (gap ++ (first ++ (gap' ++ (last ++ after))))))
        ⟨String.ofList signature, min, max⟩

/-- A level starts with no space. -/
theorem stops_of_isLevelText (hlevel : IsLevelText w level) (rest : List Char) :
    Stops isSpaceOrTab (w ++ rest) := by
  have hnumeral : ∀ i, Decimal.IsNumeral w i → Stops isSpaceOrTab (w ++ rest) := by
    intro i hnumeral
    cases hnumeral with
    | plain hds =>
        obtain ⟨d, ds, rfl⟩ := List.exists_cons_of_ne_nil hds.ne_nil
        refine stops_cons (Bool.eq_false_iff.mpr fun hspace => ?_)
        have hdigit := hds.isDigit d List.mem_cons_self
        rcases isSpaceOrTab_iff.mp hspace with rfl | rfl
        · exact absurd hdigit (by decide)
        · exact absurd hdigit (by decide)
    | minus hds => exact stops_cons (by decide)
  cases hlevel with
  | mark => exact stops_cons (by decide)
  | known hnumber _ => exact hnumeral _ hnumber
  | outside hnumber _ _ _ => exact hnumeral _ hnumber

theorem stops_digit_of_isGap {gap : List Char} (hgap : IsGap gap) (hrest : gap ≠ [] ∨ rest = []) :
    Stops Char.isDigit (gap ++ rest) := by
  cases gap with
  | nil =>
      obtain rfl := hrest.resolve_left fun hne => hne rfl
      exact stops_nil
  | cons c gap =>
      refine stops_cons ?_
      rcases hgap c List.mem_cons_self with rfl | rfl <;> decide

/-- What is read as an entry is what is one. -/
theorem ofChars?_eq_some_iff {e : LifetimeEntry} : ofChars? cs = some e ↔ IsEntry cs e := by
  unfold ofChars?
  simp only [Option.bind_eq_bind, Option.bind_eq_some_iff, Prod.exists, scanSignature_eq_some_iff,
    skipSpaces1_eq_some_iff, Option.guard_eq_some']
  constructor
  · rintro ⟨signature, _, ⟨hsignature, hcs⟩, _, ⟨gap, hgap, hne, _, rfl⟩, min, _, hmin, _,
      ⟨gap', hgap', hne', _, rfl⟩, max, tail, hmax, _, hend, heq⟩
    obtain ⟨before, hbefore, _, rfl⟩ := skipSpaces_eq_iff.mp hcs
    obtain ⟨first, hfirst, rfl⟩ := isLevelText_of_scanLevel hmin
    obtain ⟨last, hlast, rfl⟩ := isLevelText_of_scanLevel hmax
    obtain ⟨after, hafter, _, rfl⟩ := skipSpaces_eq_iff.mp hend
    cases heq
    rw [List.append_nil]
    exact .intro hbefore hsignature hgap hne hfirst hgap' hne' hlast hafter
  · rintro ⟨hbefore, hsignature, hgap, hne, hfirst, hgap', hne', hlast, hafter⟩
    rename_i before signature gap first gap' last after min max
    obtain ⟨tail, rfl, hends⟩ := id hsignature
    have hstart : Stops isSpaceOrTab ('<' :: tail ++ (gap ++ (first ++ (gap' ++ (last ++ after))))) :=
      stops_cons (by decide)
    refine ⟨_, _, ⟨hsignature, skipSpaces_eq_iff.mpr ⟨before, hbefore, hstart, rfl⟩⟩, _,
      ⟨gap, hgap, hne, stops_of_isLevelText hfirst _, rfl⟩, min, _,
      scanLevel_of_isLevelText hfirst (stops_digit_of_isGap hgap' (.inl hne')), _,
      ⟨gap', hgap', hne', stops_of_isLevelText hlast _, rfl⟩, max, after,
      scanLevel_of_isLevelText hlast ?_, (), ?_, rfl⟩
    · -- what follows the last level is empty or starts with a space
      rw [← List.append_nil after]
      exact stops_digit_of_isGap hafter (.inr rfl)
    · exact skipSpaces_eq_iff.mpr ⟨after, hafter, stops_nil, (List.append_nil after).symm⟩

end LifetimeEntry

end ApiGuard
