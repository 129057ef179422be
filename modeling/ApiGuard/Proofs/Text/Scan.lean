/-
  ApiGuard.Proofs.Text.Scan
  ─────────────────────────
  Parts of a text: what is taken off its ends, and its lines.

  Characters of a kind are taken off the front of a text as long as there are any, so a
  part is found again if all of it is of the kind and what follows stops it.  A text that is
  trimmed loses the blank characters at both of its ends and no others.  It is cut into lines
  in one way only: at each newline a line ends, without one carriage return just before it,
  and what is left after the last newline is a line unless it is empty:

      takeWhile_append, dropWhile_append   the part and what stops it
      wordBefore_eq_some_iff               a word and the stop after it
      isTrimmed_iff                        what is left of a trimmed text
      lines_append                         a line that a newline ends
      isCut_iff                            the lines are those that the text is cut into
-/
import ApiGuard.Text.Scan
import ApiGuard.Text
import Mathlib.Data.List.TakeWhile

namespace ApiGuard.Text

/-! ## §1. Parts. -/

/-- The text does not go on with a character of the kind. -/
def Stops (p : Char → Bool) (cs : List Char) : Prop := ∀ c ∈ cs.head?, p c = false

variable {p : Char → Bool} {c : Char} {w cs line rest : List Char} {ls : List (List Char)}

theorem stops_nil : Stops p [] := by
  intro c hc
  cases hc

theorem stops_cons (hc : p c = false) : Stops p (c :: cs) := by
  intro d hd
  cases hd
  exact hc

theorem Stops.takeWhile_eq_nil (h : Stops p cs) : cs.takeWhile p = [] := by
  cases cs with
  | nil => rfl
  | cons c cs => rw [List.takeWhile_cons, h c rfl, if_neg Bool.false_ne_true]

/-- Where nothing more can be taken off, it stops. -/
theorem stops_dropWhile (p : Char → Bool) (cs : List Char) : Stops p (cs.dropWhile p) := by
  intro c hc
  have hne : cs.dropWhile p ≠ [] := by
    intro hnil
    rw [hnil] at hc
    cases hc
  have hhead := List.head_dropWhile_not p hne
  rw [List.head?_eq_some_head hne] at hc
  rwa [Option.mem_some_iff.mp hc] at hhead

theorem stops_append_of_ne_nil (hw : w ≠ []) : Stops p (w ++ rest) ↔ Stops p w := by
  cases w with
  | nil => exact absurd rfl hw
  | cons c w => exact Iff.rfl

/-- A part is found again if what follows stops it. -/
theorem takeWhile_append (hw : ∀ c ∈ w, p c = true) (h : Stops p rest) :
    (w ++ rest).takeWhile p = w := by
  rw [List.takeWhile_append_of_pos hw, h.takeWhile_eq_nil, List.append_nil]

theorem dropWhile_append (hw : ∀ c ∈ w, p c = true) (h : Stops p rest) :
    (w ++ rest).dropWhile p = rest := by
  have hparts := List.takeWhile_append_dropWhile (p := p) (l := w ++ rest)
  rw [takeWhile_append hw h] at hparts
  exact List.append_cancel_left hparts

/-- The part before the first `c` is found again. -/
theorem takeWhile_ne_append (hw : c ∉ w) (rest : List Char) :
    (w ++ c :: rest).takeWhile (· ≠ c) = w :=
  takeWhile_append (fun d hd => decide_eq_true fun heq => hw (heq ▸ hd)) (stops_cons (by simp))

theorem dropWhile_ne_append (hw : c ∉ w) (rest : List Char) :
    (w ++ c :: rest).dropWhile (· ≠ c) = c :: rest :=
  dropWhile_append (fun d hd => decide_eq_true fun heq => hw (heq ▸ hd)) (stops_cons (by simp))

/-- A text has one first `c`. -/
theorem append_cons_inj {w' rest' : List Char} (hw : c ∉ w) (hw' : c ∉ w')
    (h : w ++ c :: rest = w' ++ c :: rest') : w = w' ∧ rest = rest' := by
  have hparts := congrArg (List.takeWhile (· ≠ c)) h
  rw [takeWhile_ne_append hw, takeWhile_ne_append hw'] at hparts
  subst hparts
  exact ⟨rfl, (List.cons.inj (List.append_cancel_left h)).2⟩

/-! ## §2. Words. -/

theorem expect_eq_some_iff : expect c cs = some rest ↔ cs = c :: rest := by
  cases cs with
  | nil => simp [expect]
  | cons d cs =>
      rw [expect, Option.ite_none_right_eq_some, Option.some.injEq, List.cons.injEq]

/-- A word goes as far as the first stop. -/
theorem wordBefore_eq_some_iff {isStop : Char → Bool} :
    wordBefore isStop cs = some (w, rest)
      ↔ w ≠ [] ∧ (∀ c ∈ w, isStop c = false) ∧ Stops (!isStop ·) rest ∧ cs = w ++ rest := by
  unfold wordBefore
  constructor
  · intro hread
    split at hread
    next => cases hread
    next hne =>
        cases hread
        refine ⟨hne, fun c hc => ?_, stops_dropWhile _ _, List.takeWhile_append_dropWhile.symm⟩
        simpa using List.mem_takeWhile_imp hc
  · rintro ⟨hne, hword, hstop, rfl⟩
    have hall : ∀ c ∈ w, (!isStop c) = true := fun c hc => by rw [hword c hc]; rfl
    rw [takeWhile_append hall hstop, dropWhile_append hall hstop, if_neg hne]

/-! ## §3. Blank ends. -/

/-- Neither the first nor the last character is blank. -/
structure IsTight (cs : List Char) : Prop where
  first : Stops isBlank cs
  last : ∀ c ∈ cs.getLast?, isBlank c = false

/-- The word is the text without the blank characters at its ends. -/
structure IsTrimmed (cs w : List Char) : Prop where
  tight : IsTight w
  exists_blank : ∃ before after, (∀ c ∈ before, isBlank c = true)
    ∧ (∀ c ∈ after, isBlank c = true) ∧ cs = before ++ (w ++ after)

/-- What is described as trimmed is what trimming gives. -/
theorem IsTrimmed.trim_eq (h : IsTrimmed cs w) : trim cs = w := by
  obtain ⟨before, after, hbefore, hafter, rfl⟩ := h.exists_blank
  unfold trim
  by_cases hw : w = []
  · subst hw
    have hall : ∀ c ∈ before ++ ([] ++ after), isBlank c = true := by
      intro c hc
      rcases List.mem_append.mp hc with hc | hc
      · exact hbefore c hc
      · exact hafter c hc
    rw [List.dropWhile_eq_nil_iff.mpr hall]
    rfl
  · have hlast : Stops isBlank w.reverse := by
      intro c hc
      rw [List.head?_reverse] at hc
      exact h.tight.last c hc
    have hafter' : ∀ c ∈ after.reverse, isBlank c = true := fun c hc =>
      hafter c (List.mem_reverse.mp hc)
    rw [dropWhile_append hbefore ((stops_append_of_ne_nil hw).mpr h.tight.first),
      List.reverse_append, dropWhile_append hafter' hlast, List.reverse_reverse]

/-- Trimming cuts off what is blank at both ends, and nothing else. -/
theorem isTrimmed_trim (cs : List Char) : IsTrimmed cs (trim cs) := by
  have hfront : cs.takeWhile isBlank ++ cs.dropWhile isBlank = cs :=
    List.takeWhile_append_dropWhile
  have hback : trim cs ++ ((cs.dropWhile isBlank).reverse.takeWhile isBlank).reverse
      = cs.dropWhile isBlank := by
    unfold trim
    rw [← List.reverse_append, List.takeWhile_append_dropWhile, List.reverse_reverse]
  refine ⟨⟨?_, ?_⟩, cs.takeWhile isBlank,
    ((cs.dropWhile isBlank).reverse.takeWhile isBlank).reverse, ?_, ?_, ?_⟩
  · by_cases hnil : trim cs = []
    · rw [hnil]
      exact stops_nil
    · rw [← stops_append_of_ne_nil hnil, hback]
      exact stops_dropWhile _ _
  · intro c hc
    unfold trim at hc
    rw [List.getLast?_reverse] at hc
    exact stops_dropWhile _ _ c hc
  · exact fun c hc => List.mem_takeWhile_imp hc
  · exact fun c hc => List.mem_takeWhile_imp (List.mem_reverse.mp hc)
  · rw [hback, hfront]

/-- There is one way to trim a text. -/
theorem isTrimmed_iff : IsTrimmed cs w ↔ trim cs = w :=
  ⟨IsTrimmed.trim_eq, fun h => h ▸ isTrimmed_trim cs⟩

theorem trim_eq_self_iff : trim cs = cs ↔ IsTight cs := by
  rw [← isTrimmed_iff]
  exact ⟨fun h => h.tight, fun h => ⟨h, [], [], by simp, by simp, by simp⟩⟩

theorem trim_trim (cs : List Char) : trim (trim cs) = trim cs :=
  trim_eq_self_iff.mpr (isTrimmed_trim cs).tight

/-- Nothing is left just of a text of blank characters. -/
theorem trim_eq_nil_iff : trim cs = [] ↔ ∀ c ∈ cs, isBlank c = true := by
  rw [← isTrimmed_iff]
  constructor
  · rintro ⟨_, before, after, hbefore, hafter, rfl⟩
    intro c hc
    rcases List.mem_append.mp hc with hc | hc
    · exact hbefore c hc
    · exact hafter c hc
  · intro hall
    exact ⟨⟨stops_nil, by simp⟩, cs, [], hall, by simp, by simp⟩

theorem sublist_trim (cs : List Char) : (trim cs).Sublist cs := by
  obtain ⟨before, after, _, _, hcs⟩ := (isTrimmed_trim cs).exists_blank
  conv => rhs; rw [hcs]
  exact (List.sublist_append_left _ _).trans (List.sublist_append_right _ _)

/-! ## §4. Lines. -/

/-- The text is cut into these lines. -/
inductive IsCut : List Char → List (List Char) → Prop
  /-- The empty text has no lines. -/
  | nil : IsCut [] []
  /-- Text that no newline ends is a line as it stands. -/
  | last {line : List Char} : line ≠ [] → '\n' ∉ line → IsCut line [line]
  /-- A newline ends a line and takes a carriage return just before it along. -/
  | ended {line rest : List Char} {later : List (List Char)} : '\n' ∉ line → IsCut rest later →
      IsCut (line ++ '\n' :: rest) (dropReturn line :: later)

theorem lines_of_not_mem (hne : line ≠ []) (hline : '\n' ∉ line) : lines line = [line] := by
  unfold lines
  rw [List.splitOn_eq_singleton hline]
  simp [hne]

/-- The lines after a newline are those of the text after it. -/
theorem lines_append (hline : '\n' ∉ line) (rest : List Char) :
    lines (line ++ '\n' :: rest) = dropReturn line :: lines rest := by
  have hpieces : rest.splitOn '\n' ≠ [] := List.splitOn_ne_nil _ _
  unfold lines
  rw [List.splitOn_append_cons_self_of_not_mem hline]
  simp only [List.dropLast_cons_of_ne_nil hpieces, List.map_cons, List.cons_append,
    List.getLast?_cons_of_ne_nil hpieces]

/-- The lines of a text are those that it is cut into. -/
theorem isCut_lines : ∀ cs : List Char, IsCut cs (lines cs) := by
  intro cs
  induction hn : cs.length using Nat.strongRecOn generalizing cs with
  | _ n ih =>
      by_cases hnewline : '\n' ∈ cs
      · -- the first newline ends the first line
        obtain ⟨line, rest, rfl, hline⟩ := List.eq_append_cons_of_mem hnewline
        rw [lines_append hline]
        refine .ended hline (ih rest.length ?_ rest rfl)
        rw [← hn, List.length_append, List.length_cons]
        omega
      · by_cases hne : cs = []
        · subst hne
          exact .nil
        · rw [lines_of_not_mem hne hnewline]
          exact .last hne hnewline

/-- There is one way to cut a text into lines. -/
theorem isCut_iff : IsCut cs ls ↔ ls = lines cs := by
  constructor
  · intro hcut
    induction hcut with
    | nil => rfl
    | last hne hline => rw [lines_of_not_mem hne hline]
    | ended hline _ ih => rw [lines_append hline, ih]
  · rintro rfl
    exact isCut_lines cs

end ApiGuard.Text
