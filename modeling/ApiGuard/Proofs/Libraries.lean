/-
  ApiGuard.Proofs.Libraries
  ─────────────────────────
  Which classes belong to the platform or to a library.

  The engine that reads the patterns is any one with the laws of engines.  Patterns may be
  added one after the other, and those that cannot be read are passed over (`tryAll`).  A text
  that cannot be read leaves the libraries as they are, any other appends one pattern, so that
  a class belongs to a library if it did before or if one of the texts that are patterns is
  found in its name; and the well known libraries are those of the namespaces that a name
  begins with:

      tryAdd_fst_of_error       what a failing addition leaves
      tryAll_eq                 the patterns after some additions
      contains_tryAll_iff       the classes that belong to a library then
      contains_wellKnown?_iff   the classes of the well known libraries
      verdicts                  all that is told of a class
-/
import ApiGuard.Proofs.Regex.Engine
import ApiGuard.Proofs.Traversal

namespace ApiGuard.PatternEngine

/-! ## §1. Attempts. -/

variable {E : PatternEngine} {Matches : E.Meaning}

/-- The pattern of a text that is one. -/
def pattern? (E : PatternEngine) (text : String) : Option E.Pattern := (E.compile text).toOption

/-- Is the text a pattern? -/
def isPattern (E : PatternEngine) (text : String) : Bool := (E.pattern? text).isSome

/-- The text is a pattern that matches somewhere in the name of the class. -/
def Meaning.FoundIn (Matches : E.Meaning) (text className : String) : Prop :=
  ∃ p, E.compile text = .ok p ∧ Matches.MatchesIn p className

theorem pattern?_eq_some_iff {text : String} {p : E.Pattern} :
    E.pattern? text = some p ↔ E.compile text = .ok p := by
  rw [pattern?]
  cases E.compile text <;> simp [Except.toOption]

theorem isPattern_of_compile {text : String} {p : E.Pattern} (h : E.compile text = .ok p) :
    E.isPattern text = true := by
  rw [isPattern, pattern?_eq_some_iff.mpr h, Option.isSome_some]

namespace Libraries

variable {l : E.Libraries} {text className : String} {texts texts' : List String}

/-- Try to add patterns one after the other. -/
def tryAll (l : E.Libraries) (texts : List String) : E.Libraries :=
  texts.foldl (fun l text => (l.tryAdd text).1) l

/-- Whether an addition succeeds depends on the text alone. -/
theorem isOk_tryAdd (l : E.Libraries) (text : String) :
    (l.tryAdd text).2.isOk = E.isPattern text := by
  rw [isPattern, pattern?]
  cases h : E.compile text with
  | ok p => rw [tryAdd_of_ok h]; rfl
  | error e => rw [tryAdd_of_error h]; rfl

theorem tryAdd_fst (l : E.Libraries) (text : String) :
    (l.tryAdd text).1 = ⟨l.patterns ++ (E.pattern? text).toList⟩ := by
  rw [pattern?]
  cases h : E.compile text with
  | ok p => rw [tryAdd_of_ok h]; rfl
  | error e =>
      rw [tryAdd_of_error h]
      exact congrArg Libraries.mk (List.append_nil _).symm

/-- A failing addition leaves the libraries as they are. -/
theorem tryAdd_fst_of_error {e : E.Error} (h : (l.tryAdd text).2 = .error e) :
    (l.tryAdd text).1 = l := by
  cases hread : E.compile text with
  | ok p => rw [tryAdd_of_ok hread] at h; cases h
  | error e => rw [tryAdd_of_error hread]

/-- What some attempts add are the patterns of the texts that are patterns. -/
theorem tryAll_eq (l : E.Libraries) (texts : List String) :
    l.tryAll texts = ⟨l.patterns ++ texts.filterMap E.pattern?⟩ := by
  induction texts generalizing l with
  | nil => exact congrArg Libraries.mk (List.append_nil _).symm
  | cons text texts ih =>
      show (l.tryAdd text).1.tryAll texts = _
      rw [ih, tryAdd_fst, List.append_assoc]
      cases h : E.pattern? text with
      | none => rw [List.filterMap_cons_none h]; rfl
      | some p => rw [List.filterMap_cons_some h]; rfl

theorem size_tryAll (l : E.Libraries) (texts : List String) :
    (l.tryAll texts).size = l.size + texts.countP E.isPattern := by
  rw [size, tryAll_eq, List.length_append, List.length_filterMap_eq_countP]
  rfl

/-- An attempt that fails makes no difference, whatever is tried before and after. -/
theorem tryAll_of_error {before after : List String} {e : E.Error}
    (h : ((l.tryAll before).tryAdd text).2 = .error e) :
    l.tryAll (before ++ text :: after) = l.tryAll (before ++ after) := by
  calc l.tryAll (before ++ text :: after)
      = ((l.tryAll before).tryAdd text).1.tryAll after := List.foldl_append
    _ = (l.tryAll before).tryAll after := by rw [tryAdd_fst_of_error h]
    _ = l.tryAll (before ++ after) := List.foldl_append.symm

/-! ## §2. Verdicts. -/

section

variable (laws : E.IsLawful Matches)

include laws

theorem contains_iff :
    l.contains className = true ↔ ∃ p ∈ l.patterns, Matches.MatchesIn p className := by
  simp only [contains, List.any_eq_true, laws.isMatch_iff]

theorem contains_tryAll_iff : (l.tryAll texts).contains className = true
    ↔ l.contains className = true ∨ ∃ text ∈ texts, Matches.FoundIn text className := by
  rw [contains_iff laws, contains_iff laws, tryAll_eq]
  constructor
  · rintro ⟨p, hmem, hp⟩
    rcases List.mem_append.mp hmem with hold | hnew
    · exact .inl ⟨p, hold, hp⟩
    · obtain ⟨text, htext, hread⟩ := List.mem_filterMap.mp hnew
      exact .inr ⟨text, htext, p, pattern?_eq_some_iff.mp hread, hp⟩
  · rintro (⟨p, hold, hp⟩ | ⟨text, htext, p, hread, hp⟩)
    · exact ⟨p, List.mem_append_left _ hold, hp⟩
    · have hnew : p ∈ texts.filterMap E.pattern? :=
        List.mem_filterMap.mpr ⟨text, htext, pattern?_eq_some_iff.mpr hread⟩
      exact ⟨p, List.mem_append_right _ hnew, hp⟩

/-- More patterns, more classes: texts that are none do not count. -/
theorem contains_tryAll_mono (hsub : ∀ text ∈ texts, E.isPattern text = true → text ∈ texts')
    (h : (l.tryAll texts).contains className = true) :
    (l.tryAll texts').contains className = true := by
  rw [contains_tryAll_iff laws] at h ⊢
  refine h.imp_right ?_
  rintro ⟨text, htext, p, hread, hp⟩
  exact ⟨text, hsub text htext (isPattern_of_compile hread), p, hread, hp⟩

theorem contains_tryAll_congr
    (hsame : ∀ text, E.isPattern text = true → (text ∈ texts ↔ text ∈ texts')) :
    (l.tryAll texts).contains className = (l.tryAll texts').contains className :=
  Bool.eq_iff_iff.mpr
    ⟨contains_tryAll_mono laws fun text htext hpattern => (hsame text hpattern).mp htext,
      contains_tryAll_mono laws fun text htext hpattern => (hsame text hpattern).mpr htext⟩

/-! ## §3. Namespaces. -/

/-- The pattern of a namespace matches in the names that begin with that of the namespace: `^`
keeps it to the start, and no character of the name has a meaning of its own. -/
theorem matchesIn_anchored_iff {ns : String} {p q : E.Pattern}
    (hp : E.compile (E.escape ns) = .ok p) (hq : E.compile (anchored E ns) = .ok q) :
    Matches.MatchesIn q className ↔ ns.toList <+: className.toList := by
  have hmatches : ∀ before part after,
      Matches q before part after ↔ before = [] ∧ part = ns.toList := by
    intro before part after
    rw [laws.matches_start hp hq, laws.matches_escape hp]
  constructor
  · rintro ⟨before, part, after, htext, h⟩
    obtain ⟨rfl, rfl⟩ := (hmatches ..).mp h
    exact ⟨after, htext.symm⟩
  · rintro ⟨after, htext⟩
    exact ⟨[], ns.toList, after, htext.symm, (hmatches ..).mpr ⟨rfl, rfl⟩⟩

/-- So the patterns of some namespaces match just the names that begin with one of these. -/
theorem exists_matchesIn_iff {names : List String} {ps : List E.Pattern}
    (hshort : ∀ ns ∈ names, ns.utf8ByteSize ≤ 1024)
    (hread : List.Forall₂ (fun ns p => E.compile (anchored E ns) = .ok p) names ps) :
    (∃ p ∈ ps, Matches.MatchesIn p className) ↔ ∃ ns ∈ names, ns.toList <+: className.toList := by
  induction hread with
  | nil => simp
  | cons hq _ ih =>
      obtain ⟨⟨p, hp⟩, -⟩ := laws.compile_escape (hshort _ List.mem_cons_self)
      rw [List.exists_mem_cons_iff, List.exists_mem_cons_iff, matchesIn_anchored_iff laws hp hq,
        ih fun ns hns => hshort ns (List.mem_cons_of_mem _ hns)]

omit laws in
theorem namespaces_short : ∀ ns ∈ namespaces, ns.utf8ByteSize ≤ 1024 := by decide

omit laws in
/-- The well known libraries have the patterns of the namespaces, in order. -/
theorem wellKnown?_eq_ok_iff : wellKnown? = .ok l
    ↔ List.Forall₂ (fun ns p => E.compile (anchored E ns) = .ok p) namespaces l.patterns := by
  rw [wellKnown?, ← Traversal.mapM_eq_ok_iff]
  obtain ⟨ps⟩ := l
  cases namespaces.mapM fun ns => E.compile (anchored E ns) <;> simp [Except.map]

/-- The names of the namespaces can be read as patterns. -/
theorem exists_wellKnown? : ∃ l : E.Libraries, wellKnown? = .ok l := by
  have hread : ∃ ps, namespaces.mapM (fun ns => E.compile (anchored E ns)) = .ok ps :=
    Traversal.exists_mapM_eq_ok_iff.mpr fun ns hns =>
      (laws.compile_escape (namespaces_short ns hns)).2
  obtain ⟨ps, hps⟩ := hread
  exact ⟨⟨ps⟩, wellKnown?_eq_ok_iff.mpr (Traversal.mapM_eq_ok_iff.mp hps)⟩

theorem contains_wellKnown?_iff (h : wellKnown? = .ok l) :
    l.contains className = true ↔ ∃ ns ∈ namespaces, ns.toList <+: className.toList :=
  (contains_iff laws).trans
    (exists_matchesIn_iff laws namespaces_short (wellKnown?_eq_ok_iff.mp h))

end

/-- The well known libraries of the program are those that its engine reads. -/
theorem wellKnown?_eq : wellKnown? = .ok ApiGuard.Libraries.wellKnown := by
  have hread : ∀ ns ∈ namespaces,
      Regex.engine.compile (anchored Regex.engine ns) = .ok (Regex.prefixPattern ns) := by
    intro ns hns
    obtain ⟨p, hp⟩ := (Regex.engine_isLawful.compile_escape (namespaces_short ns hns)).2
    rw [anchored, Regex.engine_compile, Regex.engine_escape]
    rw [Regex.engine_compile, Regex.engine_escape] at hp
    rcases Regex.eq_of_compile_start hp with ⟨rfl, -⟩ | ⟨-, rfl⟩
    · -- no namespace is without a name
      exact absurd hns (by decide)
    · exact hp
  refine wellKnown?_eq_ok_iff.mpr ?_
  exact List.forall₂_map_right_iff.mpr (List.forall₂_same.mpr hread)

/-! ## §4. All that is told of a class. -/

/-- However patterns are added to the well known libraries, a class belongs to one if its name
begins with one of their namespaces, or if one of the texts that could be added matches
somewhere in it; and to libraries without any only in the second way.

Whether a text can be added depends on the text alone.  One that cannot leaves the libraries as
they are and makes no difference later, so that their number and the verdicts are those of the
texts that can.  In which order and how often these come does not matter to the verdicts, and
more of them never make a class belong to no library. -/
theorem verdicts (laws : E.IsLawful Matches) (texts : List String) (className : String) :
    (∃ l : E.Libraries, wellKnown? = .ok l
      ∧ ((l.tryAll texts).contains className = true
        ↔ (∃ ns ∈ namespaces, ns.toList <+: className.toList)
          ∨ ∃ text ∈ texts, Matches.FoundIn text className))
    ∧ (((empty : E.Libraries).tryAll texts).contains className = true
        ↔ ∃ text ∈ texts, Matches.FoundIn text className)
    ∧ ∀ l : E.Libraries,
      (∀ text, (l.tryAdd text).2.isOk = E.isPattern text)
      ∧ (∀ text e, (l.tryAdd text).2 = .error e → (l.tryAdd text).1 = l)
      ∧ (∀ before text after e, ((l.tryAll before).tryAdd text).2 = .error e →
          l.tryAll (before ++ text :: after) = l.tryAll (before ++ after))
      ∧ (l.tryAll texts).size = l.size + texts.countP E.isPattern
      ∧ (∀ texts', (∀ text, E.isPattern text = true → (text ∈ texts ↔ text ∈ texts')) →
          (l.tryAll texts).contains className = (l.tryAll texts').contains className)
      ∧ (∀ texts', (∀ text ∈ texts, E.isPattern text = true → text ∈ texts') →
          (l.tryAll texts).contains className = true →
            (l.tryAll texts').contains className = true) := by
  obtain ⟨known, hknown⟩ := exists_wellKnown? laws
  have hnone : (empty : E.Libraries).contains className = false := rfl
  refine ⟨⟨known, hknown, ?_⟩, ?_, fun l => ⟨isOk_tryAdd l, ?_, ?_, size_tryAll l texts, ?_, ?_⟩⟩
  · rw [contains_tryAll_iff laws, contains_wellKnown?_iff laws hknown]
  · rw [contains_tryAll_iff laws, hnone, or_iff_right Bool.false_ne_true]
  · exact fun text e => tryAdd_fst_of_error
  · exact fun before text after e => tryAll_of_error
  · exact fun texts' => contains_tryAll_congr laws
  · exact fun texts' => contains_tryAll_mono laws

/-- With regular expressions: a group that is not closed is no pattern and is passed over, the
expression after it adds a library, and a namespace within the name of a class does not
count. -/
theorem verdicts_unclosed :
    Regex.engine.IsLawful Regex.Matches
      ∧ wellKnown? = .ok ApiGuard.Libraries.wellKnown
      ∧ ApiGuard.Libraries.wellKnown.tryAdd "("
        = (ApiGuard.Libraries.wellKnown, .error (.unreadable "("))
      ∧ (ApiGuard.Libraries.wellKnown.tryAll ["(", "^com\\.squareup\\."]).contains
          "com.squareup.okhttp3.Call" = true
      ∧ (ApiGuard.Libraries.wellKnown.tryAll ["(", "^com\\.squareup\\."]).contains
          "com.example.android.Helper" = false := by
  have laws := Regex.engine_isLawful
  have hunclosed : Regex.compile "(" = .error (.unreadable "(") := by decide +kernel
  -- of the two texts, the one that is a pattern matches in the names that begin with it
  have hfound (c : String) :
      (∃ text ∈ ["(", "^com\\.squareup\\."], Regex.Matches.FoundIn text c)
        ↔ "com.squareup.".toList <+: c.toList := by
    have hshort : "com.squareup.".utf8ByteSize ≤ 1024 := by decide
    obtain ⟨⟨p, hp⟩, q, hq⟩ := laws.compile_escape hshort
    have hanchored : "^" ++ Regex.engine.escape "com.squareup." = "^com\\.squareup\\." := by
      decide
    rw [← matchesIn_anchored_iff laws hp hq, ← hanchored]
    constructor
    · rintro ⟨text, htext, r, hr, hmatches⟩
      rcases List.mem_pair.mp htext with rfl | rfl
      · cases hunclosed.symm.trans hr
      · cases hq.symm.trans hr
        exact hmatches
    · exact fun hmatches => ⟨_, List.mem_cons_of_mem _ List.mem_cons_self, q, hq, hmatches⟩
  have hverdict (c : String) :
      (ApiGuard.Libraries.wellKnown.tryAll ["(", "^com\\.squareup\\."]).contains c = true
        ↔ (∃ ns ∈ namespaces, ns.toList <+: c.toList)
          ∨ "com.squareup.".toList <+: c.toList := by
    obtain ⟨⟨l, hl, hverdict⟩, -⟩ := verdicts laws ["(", "^com\\.squareup\\."] c
    cases hl.symm.trans wellKnown?_eq
    rw [hverdict, hfound]
  obtain ⟨-, -, hall⟩ := verdicts laws ["("] "com.squareup.okhttp3.Call"
  obtain ⟨-, hkept, -⟩ := hall ApiGuard.Libraries.wellKnown
  have hfails : (ApiGuard.Libraries.wellKnown.tryAdd "(").2 = .error (.unreadable "(") :=
    congrArg Prod.snd (tryAdd_of_error hunclosed)
  refine ⟨laws, wellKnown?_eq, Prod.ext (hkept _ _ hfails) hfails,
    (hverdict _).mpr (.inr (by decide)), ?_⟩
  rw [← Bool.not_eq_true, hverdict]
  decide

end Libraries

end ApiGuard.PatternEngine
