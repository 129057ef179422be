/-
  ApiGuard.Proofs.Lifetime.Texts
  ──────────────────────────────
  What a table that is read from a text has.

  A text is a table if each of its lines says an entry or nothing before its comment.  Of
  the entries with one canonical signature the last one holds.  If a line says neither, the
  first such line is the error:

      readLines_eq_ok       all lines are well formed
      readLines_eq_error    the first line that is not
      find?_entered         the bounds of a signature are those of its last entry
      parse_exact           what a text is read as
-/
import ApiGuard.Proofs.History
import ApiGuard.Proofs.Lifetime.Entries

namespace ApiGuard

open Text

/-! ## §1. Lines. -/

namespace LifetimeLine

/-- What a line has before its comment. -/
def beforeComment (line : List Char) : List Char := line.takeWhile (· ≠ '#')

/-- The line says nothing: it is white space before its comment. -/
def SaysNothing (line : List Char) : Prop := ∀ c ∈ beforeComment line, isBlank c = true

/-- The line says the entry. -/
def Says (line : List Char) (e : LifetimeEntry) : Prop :=
  LifetimeEntry.IsEntry (beforeComment line) e

/-- The line says nothing or an entry. -/
def IsWellFormed (line : List Char) : Prop := SaysNothing line ∨ ∃ e, Says line e

variable {line : List Char} {e : LifetimeEntry}

/-- The opening of its signature is no white space. -/
theorem Says.not_saysNothing (h : Says line e) : ¬ SaysNothing line := by
  unfold Says SaysNothing at *
  generalize beforeComment line = cs at *
  obtain ⟨_, ⟨tail, rfl, _⟩, _, _, _, _, _, _, _⟩ := h
  intro hblank
  exact absurd (hblank '<' (by simp)) (by decide)

theorem ofChars_eq (line : List Char) :
    ofChars line
      = if (beforeComment line).all isBlank then .blank
        else
          match LifetimeEntry.ofChars? (beforeComment line) with
          | some e => .entry e
          | none => .malformed := rfl

theorem ofChars_eq_blank_iff : ofChars line = .blank ↔ SaysNothing line := by
  unfold SaysNothing
  rw [ofChars_eq, ← List.all_eq_true]
  split
  next hblank => exact iff_of_true rfl hblank
  next hblank => exact iff_of_false (by split <;> simp) hblank

/-- A line is an entry just if the part before a comment, trimmed, is the text of one. -/
theorem ofChars_eq_entry_iff : ofChars line = .entry e ↔ Says line e := by
  unfold Says
  rw [ofChars_eq, ← LifetimeEntry.ofChars?_eq_some_iff]
  constructor
  · intro hread
    split at hread
    · cases hread
    · split at hread
      next hentry =>
          cases hread
          exact hentry
      next => cases hread
  · intro hentry
    -- a line with an entry is not passed over
    have hsaid : Says line e := LifetimeEntry.ofChars?_eq_some_iff.mp hentry
    have hnot : ¬ (beforeComment line).all isBlank = true := fun hblank =>
      hsaid.not_saysNothing (List.all_eq_true.mp hblank)
    rw [if_neg hnot, hentry]

/-- A line says one entry at most. -/
theorem Says.unique {e' : LifetimeEntry} (h : Says line e) (h' : Says line e') : e = e' := by
  have heq := (ofChars_eq_entry_iff.mpr h).symm.trans (ofChars_eq_entry_iff.mpr h')
  cases heq
  rfl

theorem ofChars_eq_malformed_iff : ofChars line = .malformed ↔ ¬ IsWellFormed line := by
  unfold IsWellFormed
  simp only [← ofChars_eq_blank_iff, ← ofChars_eq_entry_iff]
  cases ofChars line <;> simp

-- What a line says is found by reading it.
instance : Decidable (Says line e) := decidable_of_iff _ ofChars_eq_entry_iff

instance : Decidable (IsWellFormed line) :=
  decidable_of_iff (¬ ofChars line = .malformed)
    ((not_congr ofChars_eq_malformed_iff).trans not_not)

end LifetimeLine

/-! ## §2. Tables. -/

namespace LifetimeTable

open LifetimeLine Signature

variable {table : LifetimeTable} {ls : List (List Char)} {line : List Char} {s : String}

/-- Enter what a line says. -/
def enterLine (table : LifetimeTable) (line : List Char) : LifetimeTable :=
  match ofChars line with
  | .entry e => table.insert e.signature e.min e.max
  | _ => table

/-- The table of the entries that lines say. -/
def entered (ls : List (List Char)) : LifetimeTable := ls.foldl enterLine ∅

/-- Well-formed lines are entered one after the other. -/
theorem readLines_eq_ok (hls : ∀ line ∈ ls, IsWellFormed line) :
    ∀ (table : LifetimeTable) (number : Nat),
      readLines table number ls = .ok (ls.foldl enterLine table) := by
  induction ls with
  | nil =>
      intro table number
      rfl
  | cons line ls ih =>
      intro table number
      obtain ⟨hline, hrest⟩ := List.forall_mem_cons.mp hls
      rw [readLines, List.foldl_cons, enterLine]
      cases hread : ofChars line with
      | blank => exact ih hrest _ _
      | entry e => exact ih hrest _ _
      | malformed => exact absurd hline (ofChars_eq_malformed_iff.mp hread)

/-- The first line that is not well formed is the error, by its number. -/
theorem readLines_eq_error {before after : List (List Char)}
    (hbefore : ∀ line ∈ before, IsWellFormed line) (hline : ¬ IsWellFormed line) :
    ∀ (table : LifetimeTable) (number : Nat),
      readLines table number (before ++ line :: after)
        = .error ⟨number + before.length, String.ofList line⟩ := by
  induction before with
  | nil =>
      intro table number
      rw [List.nil_append, readLines, ofChars_eq_malformed_iff.mpr hline]
      rfl
  | cons l before ih =>
      intro table number
      obtain ⟨hl, hrest⟩ := List.forall_mem_cons.mp hbefore
      rw [List.cons_append, readLines, List.length_cons, Nat.add_comm before.length,
        ← Nat.add_assoc]
      cases hread : ofChars l with
      | blank => exact ih hrest _ _
      | entry e => exact ih hrest _ _
      | malformed => exact absurd hl (ofChars_eq_malformed_iff.mp hread)

/-- All lines are well formed, or there is a first one that is not. -/
theorem wellFormed_or_exists_first (ls : List (List Char)) :
    (∀ line ∈ ls, IsWellFormed line)
      ∨ ∃ before line after, ls = before ++ line :: after
          ∧ (∀ l ∈ before, IsWellFormed l) ∧ ¬ IsWellFormed line := by
  induction ls with
  | nil => exact .inl (by simp)
  | cons l ls ih =>
      by_cases hl : IsWellFormed l
      · rcases ih with hall | ⟨before, line, after, rfl, hbefore, hline⟩
        · exact .inl (List.forall_mem_cons.mpr ⟨hl, hall⟩)
        · exact .inr ⟨l :: before, line, after, rfl,
            List.forall_mem_cons.mpr ⟨hl, hbefore⟩, hline⟩
      · exact .inr ⟨[], l, ls, rfl, by simp, hl⟩

/-! ## §3. The last entry. -/

/-- The line says an entry of the signature, in some spelling of it. -/
def SaysOf (s : String) (line : List Char) (e : LifetimeEntry) : Prop :=
  Says line e ∧ canonical e.signature = canonical s

/-- The entry is the last one of the signature. -/
def IsLastOf (ls : List (List Char)) (s : String) (e : LifetimeEntry) : Prop :=
  ∃ before line after, ls = before ++ line :: after ∧ SaysOf s line e
    ∧ ∀ l ∈ after, ∀ e', ¬ SaysOf s l e'

/-- The last line that says an entry of the signature says the last one. -/
theorem isLastOf_iff {e : LifetimeEntry} :
    IsLastOf ls s e ↔ ∃ line, IsLast (fun l => ∃ e, SaysOf s l e) ls line ∧ SaysOf s line e := by
  unfold IsLastOf IsLast
  constructor
  · intro hlast
    obtain ⟨before, line, after, hls, hsaid, hlater⟩ := hlast
    exact ⟨line, ⟨before, after, hls, ⟨e, hsaid⟩, fun l hl => not_exists.mpr (hlater l hl)⟩,
      hsaid⟩
  · intro hlast
    obtain ⟨line, ⟨before, after, hls, _, hlater⟩, hsaid⟩ := hlast
    exact ⟨before, line, after, hls, hsaid, fun l hl => not_exists.mp (hlater l hl)⟩

theorem isLastOf_concat_iff {e : LifetimeEntry} :
    IsLastOf (ls ++ [line]) s e
      ↔ SaysOf s line e ∨ (IsLastOf ls s e ∧ ∀ e', ¬ SaysOf s line e') := by
  simp only [isLastOf_iff, isLast_concat_iff]
  constructor
  · intro hlast
    obtain ⟨l, ⟨_, rfl⟩ | ⟨hnot, hlast⟩, hsaid⟩ := hlast
    · exact .inl hsaid
    · exact .inr ⟨⟨l, hlast, hsaid⟩, not_exists.mp hnot⟩
  · intro hcases
    rcases hcases with hsaid | ⟨⟨l, hlast, hsaid⟩, hnot⟩
    · exact ⟨line, .inl ⟨⟨e, hsaid⟩, rfl⟩, hsaid⟩
    · exact ⟨l, .inr ⟨not_exists.mpr hnot, hlast⟩, hsaid⟩

/-- If there are entries of the signature, one of them is the last. -/
theorem exists_isLastOf_iff :
    (∃ e, IsLastOf ls s e) ↔ ∃ line ∈ ls, ∃ e, SaysOf s line e := by
  rw [← exists_isLast_iff]
  simp only [isLastOf_iff]
  constructor
  · intro hsome
    obtain ⟨_, line, hlast, _⟩ := hsome
    exact ⟨line, hlast⟩
  · intro hsome
    obtain ⟨line, hlast⟩ := hsome
    obtain ⟨e, hsaid⟩ := hlast.holds
    exact ⟨e, line, hlast, hsaid⟩

theorem find?_enterLine_of_saysOf {e : LifetimeEntry} (hsaid : SaysOf s line e) :
    (table.enterLine line).entries.find? (canonical s) = some (e.min, e.max) := by
  unfold enterLine
  rw [ofChars_eq_entry_iff.mpr hsaid.1]
  show (table.entries.insert (canonical e.signature) _).find? (canonical s) = _
  rw [SortedMap.find?_insert, if_pos hsaid.2.symm]

theorem find?_enterLine_of_not (hnot : ∀ e, ¬ SaysOf s line e) :
    (table.enterLine line).entries.find? (canonical s) = table.entries.find? (canonical s) := by
  unfold enterLine
  cases hread : ofChars line with
  | blank => rfl
  | malformed => rfl
  | entry e =>
      show (table.entries.insert (canonical e.signature) _).find? (canonical s) = _
      have hne : canonical s ≠ canonical e.signature := fun heq =>
        hnot e ⟨ofChars_eq_entry_iff.mp hread, heq.symm⟩
      rw [SortedMap.find?_insert, if_neg hne]

theorem entered_concat (ls : List (List Char)) (line : List Char) :
    entered (ls ++ [line]) = (entered ls).enterLine line := by
  unfold entered
  rw [List.foldl_append]
  rfl

/-- The bounds of a signature are those of its last entry. -/
theorem find?_entered {b : ApiLevel × ApiLevel} :
    (entered ls).entries.find? (canonical s) = some b
      ↔ ∃ e, IsLastOf ls s e ∧ b = (e.min, e.max) := by
  induction ls using List.reverseRecOn with
  | nil =>
      refine iff_of_false (by rintro ⟨⟩) ?_
      rintro ⟨_, ⟨before, line, after, heq, _⟩, _⟩
      simp at heq
  | append_singleton ls line ih =>
      rw [entered_concat]
      simp only [isLastOf_concat_iff]
      by_cases hline : ∃ e, SaysOf s line e
      · obtain ⟨e, hsaid⟩ := hline
        rw [find?_enterLine_of_saysOf hsaid, Option.some.injEq]
        constructor
        · rintro rfl
          exact ⟨e, .inl hsaid, rfl⟩
        · rintro ⟨e', hlast | ⟨_, hnot⟩, rfl⟩
          · rw [hsaid.1.unique hlast.1]
          · exact absurd hsaid (hnot e)
      · have hnot := not_exists.mp hline
        rw [find?_enterLine_of_not hnot, ih]
        constructor
        · rintro ⟨e, hlast, rfl⟩
          exact ⟨e, .inr ⟨hlast, hnot⟩, rfl⟩
        · rintro ⟨e, hsaid | ⟨hlast, _⟩, rfl⟩
          · exact absurd hsaid (hnot e)
          · exact ⟨e, hlast, rfl⟩

theorem contains_entered :
    (entered ls).contains s = true ↔ ∃ line ∈ ls, ∃ e, SaysOf s line e := by
  rw [← exists_isLastOf_iff]
  unfold contains SortedMap.contains
  rw [Option.isSome_iff_exists]
  simp only [find?_entered]
  constructor
  · rintro ⟨_, e, hlast, _⟩
    exact ⟨e, hlast⟩
  · rintro ⟨e, hlast⟩
    exact ⟨_, e, hlast, rfl⟩

/-- The lifetime of a signature has the bounds of its last entry, or unknown ones if it has
no entry. -/
theorem lookup_entered {life : Lifetime} :
    (entered ls).lookup s = life
      ↔ (∃ e, IsLastOf ls s e ∧ life = ⟨canonical s, e.min, e.max⟩)
        ∨ ((∀ line ∈ ls, ∀ e, ¬ SaysOf s line e) ∧ life = .unknown (canonical s)) := by
  have hnone : (∀ line ∈ ls, ∀ e, ¬ SaysOf s line e) ↔ ∀ e, ¬ IsLastOf ls s e := by
    rw [← not_exists, exists_isLastOf_iff]
    simp
  rw [hnone]
  unfold lookup
  cases hfind : (entered ls).entries.find? (canonical s) with
  | none =>
      have hnot : ∀ e, ¬ IsLastOf ls s e := fun e hlast =>
        absurd (find?_entered.mpr ⟨e, hlast, rfl⟩) (by simp [hfind])
      constructor
      · rintro rfl
        exact .inr ⟨hnot, rfl⟩
      · rintro (⟨e, hlast, _⟩ | ⟨_, rfl⟩)
        · exact absurd hlast (hnot e)
        · rfl
  | some b =>
      obtain ⟨e, hlast, rfl⟩ := find?_entered.mp hfind
      constructor
      · rintro rfl
        exact .inl ⟨e, hlast, rfl⟩
      · rintro (⟨e', hlast', rfl⟩ | ⟨hnot, _⟩)
        · -- both entries are what is found for the signature
          have heq := hfind.symm.trans (find?_entered.mpr ⟨e', hlast', rfl⟩)
          rw [Option.some.inj heq]
        · exact absurd hlast (hnot e)

/-! ## §4. Texts. -/

theorem parse_eq_ok {text : String} (hlines : ∀ line ∈ lines text.toList, IsWellFormed line) :
    parse text = .ok (entered (lines text.toList)) := readLines_eq_ok hlines ∅ 1

theorem parse_eq_error {text : String} {before after : List (List Char)}
    (heq : lines text.toList = before ++ line :: after)
    (hbefore : ∀ l ∈ before, IsWellFormed l) (hline : ¬ IsWellFormed line) :
    parse text = .error ⟨before.length + 1, String.ofList line⟩ := by
  unfold parse
  rw [heq, readLines_eq_error hbefore hline, Nat.add_comm]

/-- A text is a table if each of its lines says nothing or an entry.  The table has what the
entries are of, with the bounds of the last one.  Otherwise the error has the number and the
whole of the first line that says neither. -/
theorem parse_exact (text : String) :
    (∀ ls, IsCut text.toList ls ↔ ls = lines text.toList)
      ∧ ((∃ table, parse text = .ok table)
          ↔ ∀ line ∈ lines text.toList, SaysNothing line ∨ ∃ e, Says line e)
      ∧ (∀ table, parse text = .ok table → ∀ s,
          (table.contains s = true ↔ ∃ line ∈ lines text.toList, ∃ e, SaysOf s line e)
          ∧ ∀ life, table.lookup s = life
              ↔ (∃ e, IsLastOf (lines text.toList) s e ∧ life = ⟨canonical s, e.min, e.max⟩)
                ∨ ((∀ line ∈ lines text.toList, ∀ e, ¬ SaysOf s line e)
                    ∧ life = ⟨canonical s, .unknown, .unknown⟩))
      ∧ ∀ err, parse text = .error err
          ↔ ∃ before line after, lines text.toList = before ++ line :: after
              ∧ (∀ l ∈ before, SaysNothing l ∨ ∃ e, Says l e)
              ∧ ¬ (SaysNothing line ∨ ∃ e, Says line e)
              ∧ err = ⟨before.length + 1, String.ofList line⟩ := by
  refine ⟨fun _ => isCut_iff, ?_⟩
  rcases wellFormed_or_exists_first (lines text.toList)
    with hlines | ⟨before, line, after, heq, hbefore, hline⟩
  · rw [parse_eq_ok hlines]
    refine ⟨iff_of_true ⟨_, rfl⟩ hlines, ?_, ?_⟩
    · intro table htable s
      cases htable
      exact ⟨contains_entered, fun life => lookup_entered⟩
    · intro err
      refine iff_of_false (by rintro ⟨⟩) ?_
      rintro ⟨before, line, after, heq, _, hline, _⟩
      exact hline (hlines line (by rw [heq]; simp))
  · have herror := parse_eq_error heq hbefore hline
    refine ⟨iff_of_false ?_ fun hlines => hline (hlines line (by rw [heq]; simp)), ?_, ?_⟩
    · rintro ⟨table, htable⟩
      rw [herror] at htable
      cases htable
    · intro table htable
      rw [herror] at htable
      cases htable
    · intro err
      constructor
      · intro herr
        rw [herror] at herr
        exact ⟨before, line, after, heq, hbefore, hline, (Except.error.inj herr).symm⟩
      · rintro ⟨before', line', after', heq', hbefore', hline', rfl⟩
        exact parse_eq_error heq' hbefore' hline'

/-- A table with two spellings of one signature, a comment, and a blank line. -/
def renamed : String := "# all\r\n<A$B()> 4 ?\n \n<A.B()> 7 9#x"

/-- A text with half an entry. -/
def truncated : String := "#c\n\n<A()> 1 # x\n?"

/-- The first spelling has the bounds that the second was given; half an entry is an error at
its line. -/
theorem parse_exact_spellings :
    (∃ table, parse renamed = .ok table
      ∧ table.contains "<A$B()>" = true
      ∧ table.lookup "<A$B()>" = ⟨"<A.B()>", .known 7, .known 9⟩)
    ∧ parse truncated = .error ⟨3, "<A()> 1 # x"⟩ := by
  constructor
  · obtain ⟨_, hok, htable, _⟩ := parse_exact renamed
    have hlines : ∀ line ∈ lines renamed.toList, IsWellFormed line := by decide +kernel
    have hcanonical : canonical "<A$B()>" = "<A.B()>" := by decide +kernel
    have hself : canonical "<A.B()>" = "<A.B()>" := by decide +kernel
    have hlast : IsLastOf (lines renamed.toList) "<A$B()>" ⟨"<A.B()>", .known 7, .known 9⟩ :=
      ⟨["# all".toList, "<A$B()> 4 ?".toList, [' ']], "<A.B()> 7 9#x".toList, [],
        by decide +kernel, ⟨by decide +kernel, hself.trans hcanonical.symm⟩, by simp⟩
    obtain ⟨table, hparse⟩ := hok.mpr hlines
    obtain ⟨hcontains, hlookup⟩ := htable table hparse "<A$B()>"
    refine ⟨table, hparse, hcontains.mpr (exists_isLastOf_iff.mp ⟨_, hlast⟩), ?_⟩
    rw [hlookup, hcanonical]
    exact .inl ⟨_, hlast, rfl⟩
  · obtain ⟨_, _, _, herror⟩ := parse_exact truncated
    have hbefore : ∀ l ∈ [['#', 'c'], []], IsWellFormed l := by decide +kernel
    have hline : ¬ IsWellFormed "<A()> 1 # x".toList := by decide +kernel
    exact (herror _).mpr
      ⟨[['#', 'c'], []], "<A()> 1 # x".toList, [['?']], by decide +kernel, hbefore, hline, rfl⟩

end LifetimeTable

end ApiGuard
