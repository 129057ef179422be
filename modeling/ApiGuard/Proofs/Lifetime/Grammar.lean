/-
  ApiGuard.Proofs.Lifetime.Grammar
  ────────────────────────────────
  Entries of the text form as they are written.

  A written entry has seven parts: a signature and two levels, with spaces or tabs between
  them, and perhaps before and after.  A gap goes as far as there are spaces and tabs, a
  signature up to its first closing, and a level as far as there are digits, so that no text
  is a written entry in two ways.  What a level says depends on its value alone:

      isLevelWord_iff               which words are levels
      SaysLevel.known_iff           which of them are known
      WrittenEntry.text_injective   a text is written in one way
      entry_grammar                 what is read as an entry is what is written as one
-/
import ApiGuard.Proofs.Lifetime.Entries

namespace ApiGuard

open Text Decimal

/-! ## §1. Levels. -/

/-- A numeral has one value. -/
theorem Decimal.IsNumeral.unique {w : List Char} {i j : Int} (h : IsNumeral w i)
    (h' : IsNumeral w j) : i = j := by
  cases h with
  | plain hds =>
      cases h' with
      | plain _ => rfl
      | minus _ => exact absurd (hds.isDigit '-' List.mem_cons_self) (by decide)
  | minus _ =>
      cases h' with
      | plain hds => exact absurd (hds.isDigit '-' List.mem_cons_self) (by decide)
      | minus _ => rfl

/-- A question mark is no numeral. -/
theorem Decimal.IsNumeral.ne_mark {w : List Char} {i : Int} (h : IsNumeral w i) :
    w ≠ ['?'] := by
  rintro rfl
  cases h with
  | plain hds => exact absurd (hds.isDigit '?' List.mem_cons_self) (by decide)

/-- The word can stand for a level: it is a question mark, or a numeral that is a signed
integer of 64 bits. -/
def IsLevelWord (w : List Char) : Prop :=
  w = ['?'] ∨ ∃ i, IsNumeral w i ∧ minInt64 ≤ i ∧ i ≤ maxInt64

/-- What a word says about a level.  The level is known if the word is the numeral of an
unsigned integer of 32 bits, which is then the level, and unknown if it is a question mark or
another numeral. -/
structure SaysLevel (w : List Char) (level : ApiLevel) : Prop where
  known_iff : ∀ n, level = .known n ↔ IsNumeral w n ∧ n ≤ maxUInt32
  unknown_iff : level = .unknown ↔ w = ['?'] ∨ ∃ i, IsNumeral w i ∧ (i < 0 ∨ maxUInt32 < i)

variable {w : List Char} {level : ApiLevel}

/-- The text of a level says this level. -/
theorem IsLevelText.saysLevel (h : IsLevelText w level) : SaysLevel w level := by
  cases h with
  | mark =>
      refine ⟨fun n => iff_of_false (by simp) ?_, iff_of_true rfl (.inl rfl)⟩
      rintro ⟨hnumeral, _⟩
      exact hnumeral.ne_mark rfl
  | @known _ n hnumeral hn =>
      refine ⟨fun m => ?_, iff_of_false (by simp) ?_⟩
      · rw [ApiLevel.known.injEq]
        constructor
        · rintro rfl
          exact ⟨hnumeral, hn⟩
        · rintro ⟨hm, _⟩
          exact Int.ofNat.inj (hnumeral.unique hm)
      · rintro (rfl | ⟨i, hi, hword⟩)
        · exact hnumeral.ne_mark rfl
        · rw [hi.unique hnumeral] at hword
          omega
  | @outside _ i hnumeral _ _ hword =>
      refine ⟨fun n => iff_of_false (by simp) ?_, iff_of_true rfl (.inr ⟨i, hnumeral, hword⟩)⟩
      rintro ⟨hn, hle⟩
      rw [hnumeral.unique hn] at hword
      omega

/-- The words that stand for levels are those that are read as one. -/
theorem isLevelWord_iff : IsLevelWord w ↔ ∃ level, IsLevelText w level := by
  constructor
  · rintro (rfl | ⟨i, hnumeral, hmin, hmax⟩)
    · exact ⟨_, .mark⟩
    · exact ⟨_, LifetimeEntry.isLevelText_ofInt hnumeral hmin hmax⟩
  · rintro ⟨level, h⟩
    cases h with
    | mark => exact .inl rfl
    | @known _ n hnumeral hn =>
        have hmax : (maxUInt32 : Int) ≤ maxInt64 := by decide
        have hmin : minInt64 ≤ 0 := by decide
        exact .inr ⟨_, hnumeral, by omega, by omega⟩
    | outside hnumeral hmin hmax _ => exact .inr ⟨_, hnumeral, hmin, hmax⟩

/-! ## §2. Written entries. -/

instance (cs : List Char) : Decidable (IsGap cs) :=
  decidable_of_iff (cs.all isSpaceOrTab = true)
    (List.all_eq_true.trans (forall₂_congr fun _ _ => isSpaceOrTab_iff))

instance (cs : List Char) : Decidable (IsDigits cs) :=
  decidable_of_iff (cs ≠ [] ∧ cs.all Char.isDigit = true)
    ⟨fun h => ⟨h.1, List.all_eq_true.mp h.2⟩, fun h => ⟨h.1, List.all_eq_true.mpr h.2⟩⟩

/-- An entry as it is written, with all spaces and tabs. -/
@[ext]
structure WrittenEntry where
  /-- What is before the signature. -/
  before : List Char
  signature : List Char
  /-- What is between the signature and the first level. -/
  gap : List Char
  first : List Char
  /-- What is between the levels. -/
  gap' : List Char
  last : List Char
  /-- What is after the last level. -/
  after : List Char
  isGap_before : IsGap before
  isSignatureText : LifetimeEntry.IsSignatureText signature
  isGap_gap : IsGap gap
  gap_ne_nil : gap ≠ []
  isLevelWord_first : IsLevelWord first
  isGap_gap' : IsGap gap'
  gap'_ne_nil : gap' ≠ []
  isLevelWord_last : IsLevelWord last
  isGap_after : IsGap after

namespace WrittenEntry

/-- The text that is written. -/
def text (p : WrittenEntry) : List Char :=
  p.before ++ (p.signature ++ (p.gap ++ (p.first ++ (p.gap' ++ (p.last ++ p.after)))))

/-- The entry has the signature that is written, and the levels that the words say. -/
structure IsFormOf (p : WrittenEntry) (e : LifetimeEntry) : Prop where
  signature : e.signature = String.ofList p.signature
  min : SaysLevel p.first e.min
  max : SaysLevel p.last e.max

end WrittenEntry

namespace LifetimeEntry

variable {cs rest rest' w' : List Char} {e : LifetimeEntry}

/-- A gap goes as far as there are spaces and tabs. -/
theorem gap_append_inj (hw : IsGap w) (hw' : IsGap w') (hrest : Stops isSpaceOrTab rest)
    (hrest' : Stops isSpaceOrTab rest') (h : w ++ rest = w' ++ rest') : w = w' ∧ rest = rest' := by
  have heq : rest = rest' := by
    rw [← skipSpaces_eq_iff.mpr ⟨w, hw, hrest, rfl⟩, h]
    exact skipSpaces_eq_iff.mpr ⟨w', hw', hrest', rfl⟩
  subst heq
  exact ⟨List.append_cancel_right h, rfl⟩

/-- A signature goes as far as its first closing. -/
theorem signature_append_inj (hw : IsSignatureText w) (hw' : IsSignatureText w')
    (h : w ++ rest = w' ++ rest') : w = w' ∧ rest = rest' := by
  have hread : scanSignature (w ++ rest) = some (w, rest) :=
    scanSignature_eq_some_iff.mpr ⟨hw, rfl⟩
  rw [h, scanSignature_eq_some_iff.mpr ⟨hw', rfl⟩] at hread
  cases hread
  exact ⟨rfl, rfl⟩

/-- A level goes as far as there are digits. -/
theorem level_append_inj (hw : IsLevelWord w) (hw' : IsLevelWord w')
    (hrest : Stops Char.isDigit rest) (hrest' : Stops Char.isDigit rest')
    (h : w ++ rest = w' ++ rest') : w = w' ∧ rest = rest' := by
  obtain ⟨level, hlevel⟩ := isLevelWord_iff.mp hw
  obtain ⟨level', hlevel'⟩ := isLevelWord_iff.mp hw'
  have hread := scanLevel_of_isLevelText hlevel hrest
  rw [h, scanLevel_of_isLevelText hlevel' hrest'] at hread
  obtain rfl := (Prod.mk.inj (Option.some.inj hread)).2
  exact ⟨List.append_cancel_right h, rfl⟩

theorem stops_of_isSignatureText (hw : IsSignatureText w) (rest : List Char) :
    Stops isSpaceOrTab (w ++ rest) := by
  obtain ⟨tail, rfl, _⟩ := hw
  exact stops_cons (by decide)

theorem stops_of_isLevelWord (hw : IsLevelWord w) (rest : List Char) :
    Stops isSpaceOrTab (w ++ rest) := by
  obtain ⟨level, hlevel⟩ := isLevelWord_iff.mp hw
  exact stops_of_isLevelText hlevel rest

end LifetimeEntry

open LifetimeEntry

/-- Where each part ends is found in one way only. -/
theorem WrittenEntry.text_injective {p q : WrittenEntry} (h : p.text = q.text) : p = q := by
  have hend : ∀ r : WrittenEntry, Stops Char.isDigit r.after := by
    intro r
    rw [← List.append_nil r.after]
    exact stops_digit_of_isGap r.isGap_after (.inr rfl)
  obtain ⟨hbefore, h⟩ := gap_append_inj p.isGap_before q.isGap_before
    (stops_of_isSignatureText p.isSignatureText _)
    (stops_of_isSignatureText q.isSignatureText _) h
  obtain ⟨hsignature, h⟩ := signature_append_inj p.isSignatureText q.isSignatureText h
  obtain ⟨hgap, h⟩ := gap_append_inj p.isGap_gap q.isGap_gap
    (stops_of_isLevelWord p.isLevelWord_first _) (stops_of_isLevelWord q.isLevelWord_first _) h
  obtain ⟨hfirst, h⟩ := level_append_inj p.isLevelWord_first q.isLevelWord_first
    (stops_digit_of_isGap p.isGap_gap' (.inl p.gap'_ne_nil))
    (stops_digit_of_isGap q.isGap_gap' (.inl q.gap'_ne_nil)) h
  obtain ⟨hgap', h⟩ := gap_append_inj p.isGap_gap' q.isGap_gap'
    (stops_of_isLevelWord p.isLevelWord_last _) (stops_of_isLevelWord q.isLevelWord_last _) h
  obtain ⟨hlast, hafter⟩ := level_append_inj p.isLevelWord_last q.isLevelWord_last
    (hend p) (hend q) h
  exact WrittenEntry.ext hbefore hsignature hgap hfirst hgap' hlast hafter

/-! ## §3. Reading. -/

namespace LifetimeEntry

variable {cs : List Char} {e : LifetimeEntry}

/-- What is read as an entry is written as one. -/
theorem exists_written (h : ofChars? cs = some e) :
    ∃ p : WrittenEntry, p.text = cs ∧ p.IsFormOf e := by
  obtain ⟨hbefore, hsignature, hgap, hne, hfirst, hgap', hne', hlast, hafter⟩ :=
    ofChars?_eq_some_iff.mp h
  exact ⟨⟨_, _, _, _, _, _, _, hbefore, hsignature, hgap, hne, isLevelWord_iff.mpr ⟨_, hfirst⟩,
    hgap', hne', isLevelWord_iff.mpr ⟨_, hlast⟩, hafter⟩, rfl,
    ⟨rfl, hfirst.saysLevel, hlast.saysLevel⟩⟩

/-- What is written as an entry is read as one. -/
theorem exists_read (p : WrittenEntry) : ∃ e, ofChars? p.text = some e := by
  obtain ⟨min, hfirst⟩ := isLevelWord_iff.mp p.isLevelWord_first
  obtain ⟨max, hlast⟩ := isLevelWord_iff.mp p.isLevelWord_last
  exact ⟨_, ofChars?_eq_some_iff.mpr (.intro p.isGap_before p.isSignatureText p.isGap_gap
    p.gap_ne_nil hfirst p.isGap_gap' p.gap'_ne_nil hlast p.isGap_after)⟩

/-- A line is read as an entry just if it is written as one.  It is then written in one way,
and what is read are the parts that are written: the signature as it stands, and two levels,
each of which is known if its value is an unsigned integer of 32 bits, and unknown
otherwise. -/
theorem entry_grammar (line : List Char) :
    ((∃ e, ofChars? line = some e) ↔ ∃ p : WrittenEntry, p.text = line)
    ∧ ∀ p : WrittenEntry, p.text = line →
        (∀ q : WrittenEntry, q.text = line → q = p)
        ∧ ∃ e, ofChars? line = some e ∧ p.IsFormOf e := by
  have hunique : ∀ p q : WrittenEntry, p.text = line → q.text = line → q = p :=
    fun p q hp hq => WrittenEntry.text_injective (hq.trans hp.symm)
  refine ⟨⟨?_, ?_⟩, fun p hp => ⟨fun q hq => hunique p q hp hq, ?_⟩⟩
  · rintro ⟨e, he⟩
    obtain ⟨p, hp, _⟩ := exists_written he
    exact ⟨p, hp⟩
  · rintro ⟨p, rfl⟩
    exact exists_read p
  · obtain ⟨e, he⟩ := exists_read p
    rw [hp] at he
    -- the entry has the form of what is written, which is `p`
    obtain ⟨q, hq, hform⟩ := exists_written he
    rw [hunique p q hp hq] at hform
    exact ⟨e, he, hform⟩

/-- A written entry whose signature has blanks, digits and brackets of its own, and whose
levels are the least that is known and the first that is not. -/
def crowdedEntry : WrittenEntry where
  before := ['\t']
  signature := "<a.B: void <init>(int) 4> 5)>".toList
  gap := [' ', '\t']
  first := "-0".toList
  gap' := [' ']
  last := "4294967296".toList
  after := [' ']
  isGap_before := by decide
  isSignatureText := ⟨_, rfl, "a.B: void <init>(int) 4> 5".toList, by decide +kernel,
    fun hearlier => absurd (occursIn_iff.mpr hearlier) (by decide +kernel)⟩
  isGap_gap := by decide
  gap_ne_nil := by decide
  isLevelWord_first := .inr ⟨_, .minus (by decide +kernel), by decide +kernel⟩
  isGap_gap' := by decide
  gap'_ne_nil := by decide
  isLevelWord_last := .inr ⟨_, .plain (by decide +kernel), by decide +kernel⟩
  isGap_after := by decide

/-- It is read as it is written, and in no other way. -/
theorem entry_grammar_crowded :
    crowdedEntry.text = "\t<a.B: void <init>(int) 4> 5)> \t-0 4294967296 ".toList
    ∧ (∀ q : WrittenEntry,
        q.text = "\t<a.B: void <init>(int) 4> 5)> \t-0 4294967296 ".toList → q = crowdedEntry)
    ∧ ∃ e, ofChars? "\t<a.B: void <init>(int) 4> 5)> \t-0 4294967296 ".toList = some e
      ∧ e.signature = "<a.B: void <init>(int) 4> 5)>" ∧ e.min = .known 0 ∧ e.max = .unknown := by
  have htext : crowdedEntry.text
      = "\t<a.B: void <init>(int) 4> 5)> \t-0 4294967296 ".toList := by decide +kernel
  obtain ⟨_, hform⟩ := entry_grammar "\t<a.B: void <init>(int) 4> 5)> \t-0 4294967296 ".toList
  obtain ⟨hunique, e, he, hsignature, hmin, hmax⟩ := hform crowdedEntry htext
  have hzero : IsDigits "0".toList := by decide +kernel
  have hlarge : IsDigits "4294967296".toList := by decide +kernel
  refine ⟨htext, hunique, e, he, ?_, (hmin.known_iff 0).mpr ⟨.minus hzero, by decide⟩,
    hmax.unknown_iff.mpr (.inr ⟨_, .plain hlarge, .inr (by decide +kernel)⟩)⟩
  rw [hsignature]
  rfl

end LifetimeEntry

end ApiGuard
