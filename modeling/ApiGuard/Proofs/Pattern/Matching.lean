/-
  ApiGuard.Proofs.Pattern.Matching
  ────────────────────────────────
  What it means that a pattern matches, and that reading a text with marks tells it.

  A pattern spans parts of a text, from one place to another (`Spans`).  The marks after a
  character stand for the matches under way: from there on, they can be brought to their end
  at certain places (`Resumes`).  One character takes the marks to those of the matches that
  go on beyond it or begin right before it, and so by induction over the text the pattern is
  found just if it spans some part:

      nullable_iff     what matches nothing
      ends_iff         the matches under way that end here
      resumes_shift    what one character does to the matches under way
      isMatch_iff      a pattern matches a text just if it spans a part of it

  A text as a pattern spans its occurrences (`spans_literal_iff`).
-/
import ApiGuard.Pattern

namespace ApiGuard.Pattern

/-! ## §1. Parts that a pattern spans. -/

/-- The pattern matches the part of the text between two places. -/
inductive Spans (cs : List Char) : Pattern → Nat → Nat → Prop
  | empty {i : Nat} : i ≤ cs.length → Spans cs .empty i i
  | one {s : CharSet} {c : Char} {i : Nat} : cs[i]? = some c → s.contains c = true →
      Spans cs (.one s) i (i + 1)
  | start : Spans cs .start 0 0
  | stop : Spans cs .stop cs.length cs.length
  | seq {p q : Pattern} {i j k : Nat} : Spans cs p i j → Spans cs q j k →
      Spans cs (.seq p q) i k
  | left {p q : Pattern} {i j : Nat} : Spans cs p i j → Spans cs (.alt p q) i j
  | right {p q : Pattern} {i j : Nat} : Spans cs q i j → Spans cs (.alt p q) i j
  | once {p : Pattern} {i j : Nat} : Spans cs p i j → Spans cs (.many p) i j
  | more {p : Pattern} {i j k : Nat} : Spans cs p i j → Spans cs (.many p) j k →
      Spans cs (.many p) i k

/-- The pattern matches somewhere in the text. -/
def MatchesIn (p : Pattern) (text : String) : Prop := ∃ i j, Spans text.toList p i j

variable {cs : List Char} {p q : Pattern} {m : Marks} {i j k : Nat} {c : Char}

theorem Spans.le (h : Spans cs p i j) : i ≤ j ∧ j ≤ cs.length := by
  induction h with
  | empty hi => exact ⟨Nat.le_refl _, hi⟩
  | one hc _ => exact ⟨Nat.le_succ _, (List.getElem?_eq_some_iff.mp hc).1⟩
  | start => exact ⟨Nat.le_refl _, Nat.zero_le _⟩
  | stop => exact ⟨Nat.le_refl _, Nat.le_refl _⟩
  | seq _ _ ihp ihq => exact ⟨Nat.le_trans ihp.1 ihq.1, ihq.2⟩
  | left _ ih => exact ih
  | right _ ih => exact ih
  | once _ ih => exact ih
  | more _ _ ihp ihq => exact ⟨Nat.le_trans ihp.1 ihq.1, ihq.2⟩

theorem spans_one_iff {s : CharSet} (hc : cs[i]? = some c) :
    Spans cs (.one s) i j ↔ s.contains c = true ∧ i + 1 = j := by
  constructor
  · intro h
    cases h with
    | one hc' hs =>
      cases hc.symm.trans hc'
      exact ⟨hs, rfl⟩
  · rintro ⟨hs, rfl⟩
    exact .one hc hs

theorem spans_start_iff : Spans cs .start i j ↔ i = 0 ∧ j = 0 := by
  constructor
  · intro h
    cases h
    exact ⟨rfl, rfl⟩
  · rintro ⟨rfl, rfl⟩
    exact .start

theorem spans_seq_iff : Spans cs (.seq p q) i k ↔ ∃ j, Spans cs p i j ∧ Spans cs q j k := by
  constructor
  · intro h
    cases h with
    | seq hp hq => exact ⟨_, hp, hq⟩
  · rintro ⟨j, hp, hq⟩
    exact .seq hp hq

theorem spans_alt_iff : Spans cs (.alt p q) i j ↔ Spans cs p i j ∨ Spans cs q i j := by
  constructor
  · intro h
    cases h with
    | left hp => exact .inl hp
    | right hq => exact .inr hq
  · rintro (hp | hq)
    · exact .left hp
    · exact .right hq

theorem spans_many_iff :
    Spans cs (.many p) i k ↔ ∃ j, Spans cs p i j ∧ (j = k ∨ Spans cs (.many p) j k) := by
  constructor
  · intro h
    cases h with
    | once hp => exact ⟨_, hp, .inl rfl⟩
    | more hp hmore => exact ⟨_, hp, .inr hmore⟩
  · rintro ⟨j, hp, rfl | hmore⟩
    · exact .once hp
    · exact .more hp hmore

/-- The repetitions before the first that matches a character can be left out. -/
theorem Spans.exists_first (h : Spans cs (.many p) i k) (hik : i < k) :
    ∃ j, i < j ∧ Spans cs p i j ∧ (j = k ∨ Spans cs (.many p) j k) := by
  generalize hmany : Pattern.many p = r at h
  induction h with
  | once hp _ =>
      cases hmany
      exact ⟨_, hik, hp, .inl rfl⟩
  | @more _ i j k hp hmore _ ih =>
      cases hmany
      by_cases hij : i < j
      · exact ⟨j, hij, hp, .inr hmore⟩
      · obtain rfl : i = j := Nat.le_antisymm hp.le.1 (Nat.not_lt.mp hij)
        exact ih hik rfl
  | _ => cases hmany

/-! ## §2. Matches of nothing. -/

/-- What can be told about a place of the text. -/
def placeAt (cs : List Char) (i : Nat) : Place := ⟨i == 0, i == cs.length⟩

/-- Of two patterns in sequence each spans nothing if both do. -/
theorem spans_seq_self_iff : Spans cs (.seq p q) i i ↔ Spans cs p i i ∧ Spans cs q i i := by
  rw [spans_seq_iff]
  constructor
  · rintro ⟨j, hp, hq⟩
    obtain rfl : i = j := Nat.le_antisymm hp.le.1 hq.le.1
    exact ⟨hp, hq⟩
  · exact fun h => ⟨i, h⟩

theorem spans_many_self_iff : Spans cs (.many p) i i ↔ Spans cs p i i := by
  rw [spans_many_iff]
  constructor
  · rintro ⟨j, hp, rfl | hmore⟩
    · exact hp
    · obtain rfl : i = j := Nat.le_antisymm hp.le.1 hmore.le.1
      exact hp
  · exact fun hp => ⟨i, hp, .inl rfl⟩

/-- A pattern matches nothing at a place just if it spans the part without characters there. -/
theorem nullable_iff (hi : i ≤ cs.length) :
    nullable (placeAt cs i) p = true ↔ Spans cs p i i := by
  induction p with
  | empty => exact iff_of_true rfl (.empty hi)
  | one s =>
      refine iff_of_false Bool.false_ne_true fun h => ?_
      cases h
  | start =>
      show (i == 0) = true ↔ _
      rw [beq_iff_eq]
      constructor
      · rintro rfl
        exact .start
      · intro h
        cases h
        rfl
  | stop =>
      show (i == cs.length) = true ↔ _
      rw [beq_iff_eq]
      constructor
      · rintro rfl
        exact .stop
      · intro h
        cases h
        rfl
  | seq p q ihp ihq => rw [spans_seq_self_iff, nullable, Bool.and_eq_true, ihp, ihq]
  | alt p q ihp ihq => rw [spans_alt_iff, nullable, Bool.or_eq_true, ihp, ihq]
  | many p ih => rw [spans_many_self_iff, nullable, ih]

/-! ## §3. Matches under way. -/

/-- From the marks at a place a match under way can be brought to its end at another. -/
def Resumes (cs : List Char) : Pattern → Marks → Nat → Nat → Prop
  | .one _, m, i, j => m = .here ∧ i = j
  | .seq p q, m, i, k =>
    Resumes cs q m.right i k ∨ ∃ j, Resumes cs p m.left i j ∧ Spans cs q j k
  | .alt p q, m, i, j => Resumes cs p m.left i j ∨ Resumes cs q m.right i j
  | .many p, m, i, k => ∃ j, Resumes cs p m i j ∧ (j = k ∨ Spans cs (.many p) j k)
  | _, _, _, _ => False

/-- A match under way ends here or later. -/
theorem Resumes.le (h : Resumes cs p m i j) : i ≤ j := by
  induction p generalizing m i j with
  | one s => exact Nat.le_of_eq h.2
  | seq p q ihp ihq =>
      rcases h with h | ⟨k, hp, hq⟩
      · exact ihq h
      · exact Nat.le_trans (ihp hp) hq.le.1
  | alt p q ihp ihq => exact h.elim ihp ihq
  | many p ih =>
      obtain ⟨k, hp, rfl | hmore⟩ := h
      · exact ih hp
      · exact Nat.le_trans (ih hp) hmore.le.1
  | empty => exact h.elim
  | start => exact h.elim
  | stop => exact h.elim

/-- A match under way ends within the text. -/
theorem Resumes.le_length (h : Resumes cs p m i j) (hi : i ≤ cs.length) : j ≤ cs.length := by
  induction p generalizing m j with
  | one s => exact h.2 ▸ hi
  | seq p q ihp ihq =>
      rcases h with h | ⟨k, hp, hq⟩
      · exact ihq h
      · exact hq.le.2
  | alt p q ihp ihq => exact h.elim ihp ihq
  | many p ih =>
      obtain ⟨k, hp, rfl | hmore⟩ := h
      · exact ih hp
      · exact hmore.le.2
  | empty => exact h.elim
  | start => exact h.elim
  | stop => exact h.elim

/-- Without marks nothing is under way. -/
theorem not_resumes_none : ¬ Resumes cs p .none i j := by
  induction p generalizing i j with
  | one s => exact fun h => Marks.noConfusion h.1
  | seq p q ihp ihq => exact fun h => h.elim ihq fun ⟨_, hp, _⟩ => ihp hp
  | alt p q ihp ihq => exact fun h => h.elim ihp ihq
  | many p ih => exact fun ⟨_, hp, _⟩ => ih hp
  | empty => exact id
  | start => exact id
  | stop => exact id

theorem ends_seq (place : Place) (p q : Pattern) (m : Marks) :
    ends place (.seq p q) m
      = (ends place q m.right || (ends place p m.left && nullable place q)) := by
  cases m <;> simp [ends, Marks.left, Marks.right]

theorem ends_alt (place : Place) (p q : Pattern) (m : Marks) :
    ends place (.alt p q) m = (ends place p m.left || ends place q m.right) := by
  cases m <;> simp [ends, Marks.left, Marks.right]

theorem ends_many (place : Place) (p : Pattern) (m : Marks) :
    ends place (.many p) m = ends place p m := by
  cases m <;> simp [ends]

theorem resumes_seq_self_iff : Resumes cs (.seq p q) m i i
    ↔ Resumes cs q m.right i i ∨ (Resumes cs p m.left i i ∧ Spans cs q i i) := by
  constructor
  · rintro (h | ⟨j, hp, hq⟩)
    · exact .inl h
    · obtain rfl : i = j := Nat.le_antisymm hp.le hq.le.1
      exact .inr ⟨hp, hq⟩
  · exact Or.imp_right fun h => ⟨i, h⟩

theorem resumes_many_self_iff : Resumes cs (.many p) m i i ↔ Resumes cs p m i i := by
  constructor
  · rintro ⟨j, hp, rfl | hmore⟩
    · exact hp
    · obtain rfl : i = j := Nat.le_antisymm hp.le hmore.le.1
      exact hp
  · exact fun hp => ⟨i, hp, .inl rfl⟩

/-- The matches under way that end at the place. -/
theorem ends_iff (hi : i ≤ cs.length) :
    ends (placeAt cs i) p m = true ↔ Resumes cs p m i i := by
  induction p generalizing m with
  | one s => cases m <;> simp [ends, Resumes]
  | seq p q ihp ihq =>
      rw [ends_seq, resumes_seq_self_iff, Bool.or_eq_true, Bool.and_eq_true, ihp, ihq,
        nullable_iff hi]
  | alt p q ihp ihq =>
      rw [ends_alt, Bool.or_eq_true, ihp, ihq]
      rfl
  | many p ih => rw [ends_many, resumes_many_self_iff, ih]
  | empty => cases m <;> simp [ends, Resumes]
  | start => cases m <;> simp [ends, Resumes]
  | stop => cases m <;> simp [ends, Resumes]

/-! ## §4. One character. -/

theorem shift_none (place : Place) (c : Char) (p : Pattern) :
    shift place c false p .none = .none := by
  cases p <;> rfl

theorem shift_one (place : Place) (c : Char) (enter : Bool) (s : CharSet) (m : Marks) :
    shift place c enter (.one s) m = if enter && s.contains c then .here else .none := by
  cases enter <;> cases m <;> rfl

theorem shift_seq (place : Place) (c : Char) (enter : Bool) (p q : Pattern) (m : Marks) :
    shift place c enter (.seq p q) m
      = .pair (shift place c enter p m.left)
          (shift place c ((enter && nullable place p) || ends place p m.left) q m.right) := by
  cases enter <;> cases m <;> simp [shift, Marks.left, Marks.right, shift_none, Marks.pair]

theorem shift_alt (place : Place) (c : Char) (enter : Bool) (p q : Pattern) (m : Marks) :
    shift place c enter (.alt p q) m
      = .pair (shift place c enter p m.left) (shift place c enter q m.right) := by
  cases enter <;> cases m <;> simp [shift, Marks.left, Marks.right, shift_none, Marks.pair]

theorem shift_many (place : Place) (c : Char) (enter : Bool) (p : Pattern) (m : Marks) :
    shift place c enter (.many p) m = shift place c (enter || ends place p m) p m := by
  cases enter <;> cases m <;> simp [shift, shift_none]

/-- A match under way can be brought to its end at the other place, or one that may begin
here can. -/
def Reaches (cs : List Char) (p : Pattern) (m : Marks) (enter : Bool) (i j : Nat) : Prop :=
  Resumes cs p m i j ∨ (enter = true ∧ Spans cs p i j)

variable {enter : Bool}

theorem Reaches.le (h : Reaches cs p m enter i j) : i ≤ j :=
  h.elim Resumes.le fun ⟨_, hspans⟩ => hspans.le.1

theorem Reaches.le_length (h : Reaches cs p m enter i j) (hi : i ≤ cs.length) :
    j ≤ cs.length :=
  h.elim (fun hp => hp.le_length hi) fun ⟨_, hspans⟩ => hspans.le.2

theorem reaches_seq_iff : Reaches cs (.seq p q) m enter i k
    ↔ Resumes cs q m.right i k ∨ ∃ j, Reaches cs p m.left enter i j ∧ Spans cs q j k := by
  unfold Reaches
  rw [spans_seq_iff]
  constructor
  · rintro ((hq | ⟨j, hp, hq⟩) | ⟨henter, j, hp, hq⟩)
    · exact .inl hq
    · exact .inr ⟨j, .inl hp, hq⟩
    · exact .inr ⟨j, .inr ⟨henter, hp⟩, hq⟩
  · rintro (hq | ⟨j, hp | ⟨henter, hp⟩, hq⟩)
    · exact .inl (.inl hq)
    · exact .inl (.inr ⟨j, hp, hq⟩)
    · exact .inr ⟨henter, j, hp, hq⟩

theorem reaches_alt_iff : Reaches cs (.alt p q) m enter i j
    ↔ Reaches cs p m.left enter i j ∨ Reaches cs q m.right enter i j := by
  unfold Reaches
  rw [spans_alt_iff]
  show (Resumes cs p m.left i j ∨ Resumes cs q m.right i j) ∨ _ ↔ _
  grind

/-- No character goes into a pattern that is no more than a place. -/
theorem resumes_shift_void (hp : p = .empty ∨ p = .start ∨ p = .stop) (place : Place) :
    Resumes cs p (shift place c enter p m) (i + 1) j ↔ i < j ∧ Reaches cs p m enter i j := by
  have hshift : shift place c enter p m = .none := by
    rcases hp with rfl | rfl | rfl <;> cases enter <;> cases m <;> rfl
  have hresumes : ¬ Resumes cs p m i j := by
    rcases hp with rfl | rfl | rfl <;> exact id
  have hspans (h : Spans cs p i j) : i = j := by
    rcases hp with rfl | rfl | rfl <;> cases h <;> rfl
  rw [hshift]
  refine iff_of_false not_resumes_none ?_
  rintro ⟨hij, h | ⟨-, h⟩⟩
  · exact hresumes h
  · exact Nat.ne_of_lt hij (hspans h)

/-- After a character the matches under way are those that go on beyond it, and those that
begin right before it and have it as their first. -/
theorem resumes_shift (hc : cs[i]? = some c) :
    Resumes cs p (shift (placeAt cs i) c enter p m) (i + 1) j
      ↔ i < j ∧ Reaches cs p m enter i j := by
  have hi : i ≤ cs.length := Nat.le_of_lt (List.getElem?_eq_some_iff.mp hc).1
  induction p generalizing m enter j with
  | one s =>
      rw [shift_one]
      unfold Reaches
      rw [spans_one_iff hc]
      simp only [Resumes, ite_eq_left_iff, Bool.and_eq_true]
      grind
  | seq p q ihp ihq =>
      -- the second part may begin here if a match of the first ends here
      have henter : ((enter && nullable (placeAt cs i) p)
          || ends (placeAt cs i) p m.left) = true ↔ Reaches cs p m.left enter i i := by
        rw [Bool.or_eq_true, Bool.and_eq_true, nullable_iff hi, ends_iff hi]
        exact or_comm
      rw [shift_seq, reaches_seq_iff]
      simp only [Resumes, Marks.left_pair, Marks.right_pair, ihp, ihq]
      constructor
      · rintro (⟨hij, hq | ⟨hp, hq⟩⟩ | ⟨k, ⟨hik, hp⟩, hq⟩)
        · exact ⟨hij, .inl hq⟩
        · exact ⟨hij, .inr ⟨i, henter.mp hp, hq⟩⟩
        · exact ⟨Nat.lt_of_lt_of_le hik hq.le.1, .inr ⟨k, hp, hq⟩⟩
      · rintro ⟨hij, hq | ⟨k, hp, hq⟩⟩
        · exact .inl ⟨hij, .inl hq⟩
        · rcases Nat.lt_or_eq_of_le hp.le with hik | rfl
          · exact .inr ⟨k, ⟨hik, hp⟩, hq⟩
          · exact .inl ⟨hij, .inr ⟨henter.mpr hp, hq⟩⟩
  | alt p q ihp ihq =>
      rw [shift_alt, reaches_alt_iff]
      simp only [Resumes, Marks.left_pair, Marks.right_pair, ihp, ihq]
      exact and_or_left.symm
  | many p ih =>
      -- a repetition may begin here if the match of the one before it ends here
      have henter : (enter || ends (placeAt cs i) p m) = true
          ↔ enter = true ∨ Resumes cs p m i i := by
        rw [Bool.or_eq_true, ends_iff hi]
      rw [shift_many]
      simp only [Resumes, ih, Reaches, henter]
      constructor
      · rintro ⟨k, ⟨hik, hp⟩, hrest⟩
        have hkj : k ≤ j := hrest.elim Nat.le_of_eq fun hmore => hmore.le.1
        have hmany : Spans cs p i k → Spans cs (.many p) i j := fun hspans =>
          spans_many_iff.mpr ⟨k, hspans, hrest⟩
        refine ⟨Nat.lt_of_lt_of_le hik hkj, ?_⟩
        rcases hp with hp | ⟨hbegin | hends, hp⟩
        · exact .inl ⟨k, hp, hrest⟩
        · exact .inr ⟨hbegin, hmany hp⟩
        · exact .inl ⟨i, hends, .inr (hmany hp)⟩
      · rintro ⟨hij, ⟨k, hp, hrest⟩ | ⟨hbegin, hp⟩⟩
        · rcases Nat.lt_or_eq_of_le hp.le with hik | rfl
          · exact ⟨k, ⟨hik, .inl hp⟩, hrest⟩
          · have hmore : Spans cs (.many p) i j :=
              hrest.resolve_left (Nat.ne_of_lt hij)
            obtain ⟨k, hik, hk, hrest⟩ := hmore.exists_first hij
            exact ⟨k, ⟨hik, .inr ⟨.inr hp, hk⟩⟩, hrest⟩
        · obtain ⟨k, hik, hk, hrest⟩ := hp.exists_first hij
          exact ⟨k, ⟨hik, .inr ⟨.inl hbegin, hk⟩⟩, hrest⟩
  | empty => exact resumes_shift_void (.inl rfl) _
  | start => exact resumes_shift_void (.inr (.inl rfl)) _
  | stop => exact resumes_shift_void (.inr (.inr rfl)) _

/-! ## §5. The whole text. -/

/-- A match ends right here if one under way does, or if one of nothing may begin. -/
theorem reaches_self_iff (hi : i ≤ cs.length) :
    Reaches cs p m true i i
      ↔ (nullable (placeAt cs i) p || ends (placeAt cs i) p m) = true := by
  rw [Bool.or_eq_true, nullable_iff hi, ends_iff hi, or_comm]
  exact or_congr_right (and_iff_right rfl)

/-- In the rest of a text a match ends just if one that is under way or begins at the place
does somewhere, or one that begins later. -/
theorem matchesRest_iff {rest : List Char} (hi : i ≤ cs.length) (hrest : cs.drop i = rest) :
    matchesRest p m (i == 0) rest = true
      ↔ (∃ j, Reaches cs p m true i j) ∨ ∃ k j, i < k ∧ Spans cs p k j := by
  induction rest generalizing i m with
  | nil =>
      obtain rfl : i = cs.length := Nat.le_antisymm hi (List.drop_eq_nil_iff.mp hrest)
      have hplace : (⟨cs.length == 0, true⟩ : Place) = placeAt cs cs.length := by
        simp [placeAt]
      rw [matchesRest, hplace, ← reaches_self_iff hi]
      constructor
      · exact fun h => .inl ⟨_, h⟩
      · rintro (⟨j, h⟩ | ⟨k, j, hk, h⟩)
        · obtain rfl : cs.length = j := Nat.le_antisymm h.le (h.le_length hi)
          exact h
        · exact absurd (Nat.le_trans h.le.1 h.le.2) (Nat.not_le.mpr hk)
  | cons c rest ih =>
      have hc : cs[i]? = some c := by
        rw [← List.head?_drop, hrest, List.head?_cons]
      have hlt : i < cs.length := (List.getElem?_eq_some_iff.mp hc).1
      have hplace : (⟨i == 0, false⟩ : Place) = placeAt cs i := by
        simp [placeAt, Nat.ne_of_lt hlt]
      have htail : cs.drop (i + 1) = rest := by
        rw [← List.drop_drop, hrest, List.drop_one, List.tail_cons]
      have ih : matchesRest p (shift (placeAt cs i) c true p m) false rest = true ↔ _ :=
        ih hlt htail
      rw [matchesRest, hplace, Bool.or_eq_true, ← reaches_self_iff hi, ih]
      -- what goes on beyond the character, and what begins right after it
      have hahead (j : Nat) : Reaches cs p (shift (placeAt cs i) c true p m) true (i + 1) j
          ↔ (i < j ∧ Reaches cs p m true i j) ∨ Spans cs p (i + 1) j := by
        rw [← resumes_shift hc]
        exact or_congr_right (and_iff_right rfl)
      simp only [hahead]
      constructor
      · rintro (h | ⟨j, ⟨-, h⟩ | h⟩ | ⟨k, j, hk, h⟩)
        · exact .inl ⟨i, h⟩
        · exact .inl ⟨j, h⟩
        · exact .inr ⟨i + 1, j, Nat.lt_succ_self i, h⟩
        · exact .inr ⟨k, j, Nat.lt_of_succ_lt hk, h⟩
      · rintro (⟨j, h⟩ | ⟨k, j, hk, h⟩)
        · rcases Nat.lt_or_eq_of_le h.le with hij | rfl
          · exact .inr (.inl ⟨j, .inl ⟨hij, h⟩⟩)
          · exact .inl h
        · rcases Nat.lt_or_eq_of_le (Nat.succ_le_of_lt hk) with hk | rfl
          · exact .inr (.inr ⟨k, j, hk, h⟩)
          · exact .inr (.inl ⟨j, .inr h⟩)

/-- The pattern matches a text just if it spans a part of it. -/
theorem isMatch_iff {text : String} : p.isMatch text = true ↔ p.MatchesIn text := by
  have hrun : p.isMatch text = true
      ↔ (∃ j, Reaches text.toList p .none true 0 j) ∨ ∃ k j, 0 < k ∧ Spans text.toList p k j :=
    matchesRest_iff (Nat.zero_le _) List.drop_zero
  rw [hrun]
  constructor
  · rintro (⟨j, h | ⟨-, h⟩⟩ | ⟨k, j, -, h⟩)
    · exact absurd h not_resumes_none
    · exact ⟨0, j, h⟩
    · exact ⟨k, j, h⟩
  · rintro ⟨k, j, h⟩
    rcases Nat.eq_zero_or_pos k with rfl | hk
    · exact .inl ⟨j, .inr ⟨rfl, h⟩⟩
    · exact .inr ⟨k, j, hk, h⟩

/-! ## §6. Texts. -/

/-- Patterns in sequence span what the first and then the others do. -/
theorem spans_sequence_cons_iff {ps : List Pattern} : Spans cs (sequence (p :: ps)) i k
    ↔ ∃ j, Spans cs p i j ∧ Spans cs (sequence ps) j k := by
  cases ps with
  | nil =>
      constructor
      · exact fun h => ⟨k, h, .empty h.le.2⟩
      · rintro ⟨j, hp, hrest⟩
        cases hrest
        exact hp
  | cons q ps => exact spans_seq_iff

/-- A text spans its own occurrences. -/
theorem spans_literal_iff {text : List Char} :
    Spans cs (literal text) i j ↔ i ≤ cs.length ∧ text <+: cs.drop i ∧ j = i + text.length := by
  induction text generalizing i with
  | nil =>
      constructor
      · intro h
        cases h with
        | empty hi => exact ⟨hi, List.nil_prefix, rfl⟩
      · rintro ⟨hi, -, rfl⟩
        exact .empty hi
  | cons c text ih =>
      have hseq : Spans cs (literal (c :: text)) i j
          ↔ ∃ k, Spans cs (.one (.single c)) i k ∧ Spans cs (literal text) k j :=
        spans_sequence_cons_iff
      rw [hseq]
      constructor
      · rintro ⟨k, hone, htext⟩
        cases hone with
        | one hc hmem =>
          obtain rfl := CharSet.contains_single_iff.mp hmem
          obtain ⟨hi, rfl⟩ := List.getElem?_eq_some_iff.mp hc
          obtain ⟨-, hrest, rfl⟩ := ih.mp htext
          refine ⟨Nat.le_of_lt hi, ?_, Nat.add_right_comm i 1 text.length⟩
          rw [List.drop_eq_getElem_cons hi]
          exact List.cons_prefix_cons.mpr ⟨rfl, hrest⟩
      · rintro ⟨-, hrest, rfl⟩
        have hi : i < cs.length := by
          have hlength := hrest.length_le
          rw [List.length_cons, List.length_drop] at hlength
          omega
        rw [List.drop_eq_getElem_cons hi, List.cons_prefix_cons] at hrest
        have hc : cs[i]? = some c := List.getElem?_eq_some_iff.mpr ⟨hi, hrest.1.symm⟩
        exact ⟨i + 1, .one hc (CharSet.contains_single_iff.mpr rfl),
          ih.mpr ⟨hi, hrest.2, Nat.add_right_comm i text.length 1⟩⟩

end ApiGuard.Pattern
