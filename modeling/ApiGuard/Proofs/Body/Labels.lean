/-
  ApiGuard.Proofs.Body.Labels
  ───────────────────────────
  Labels of statements, by the places of the statements.

  A statement may bear a label, and a branch or a jump names one.  A label is repeated at a
  place if a statement before bears it too, and unknown at a place if it is named there and
  no statement bears it.  Building a body finds the first place of either kind:

      firstRepeated_labels_eq_some_iff    the first place with a repeated label
      resolve_eq_error_iff                the first place with an unknown label
      placeOf?_eq_some_iff                the place of a label, if none is repeated
-/
import ApiGuard.Body
import ApiGuard.Proofs.Traversal
import Mathlib.Data.Nat.Find

namespace ApiGuard.Body

/-! ## §1. Places of labels. -/

/-- The statement at the place bears the label. -/
def Bears (stmts : List LabeledStatement) (i : Nat) (label : String) : Prop :=
  ∃ s, stmts[i]? = some s ∧ s.label = some label

/-- The statement at the place is a branch or a jump to the label. -/
def Names (stmts : List LabeledStatement) (i : Nat) (label : String) : Prop :=
  ∃ s, stmts[i]? = some s ∧ s.statement.label? = some label

/-- The statement at the place bears a label that one before it bears. -/
def IsRepeated (stmts : List LabeledStatement) (i : Nat) (label : String) : Prop :=
  Bears stmts i label ∧ ∃ j < i, Bears stmts j label

/-- The statement at the place names a label that none bears. -/
def IsUnknown (stmts : List LabeledStatement) (i : Nat) (label : String) : Prop :=
  Names stmts i label ∧ ∀ j, ¬ Bears stmts j label

/-- No two statements bear one label. -/
def AreDistinct (stmts : List LabeledStatement) : Prop :=
  ∀ i j label, Bears stmts i label → Bears stmts j label → i = j

/-- Each label that some statement names is borne by one. -/
def AreKnown (stmts : List LabeledStatement) : Prop :=
  ∀ i label, Names stmts i label → ∃ j, Bears stmts j label

/-- The label has the property at the place, and no label has it at a place before. -/
def IsFirst (P : Nat → String → Prop) (i : Nat) (label : String) : Prop :=
  P i label ∧ ∀ j < i, ∀ other, ¬ P j other

variable {stmts : List LabeledStatement} {label : String} {i : Nat}

theorem Bears.lt_length (h : Bears stmts i label) : i < stmts.length := by
  obtain ⟨s, hs, _⟩ := h
  exact (List.getElem?_eq_some_iff.mp hs).1

theorem bears_iff {s : LabeledStatement} (hs : stmts[i]? = some s) :
    Bears stmts i label ↔ s.label = some label := by
  unfold Bears
  rw [hs]
  simp

/-- A statement bears one label at most. -/
theorem Bears.unique {other : String} (h : Bears stmts i label) (h' : Bears stmts i other) :
    label = other := by
  obtain ⟨s, hs, hlabel⟩ := h
  rw [bears_iff hs, hlabel] at h'
  exact Option.some.inj h'

theorem exists_isFirst_iff {P : Nat → String → Prop} :
    (∃ i label, IsFirst P i label) ↔ ∃ i label, P i label := by
  classical
  constructor
  · intro hfirst
    obtain ⟨i, label, hP, _⟩ := hfirst
    exact ⟨i, label, hP⟩
  · intro hsome
    obtain ⟨label, hP⟩ := Nat.find_spec hsome
    exact ⟨Nat.find hsome, label, hP, fun j hj other hother => Nat.find_min hsome hj ⟨other, hother⟩⟩

/-- Labels are distinct just if none is repeated. -/
theorem areDistinct_iff : AreDistinct stmts ↔ ¬ ∃ i label, IsRepeated stmts i label := by
  constructor
  · intro hdistinct hrepeated
    obtain ⟨i, label, hi, j, hj, hearlier⟩ := hrepeated
    exact Nat.ne_of_lt hj (hdistinct j i label hearlier hi)
  · intro hnone i j label hi hj
    -- of two places with one label the later one repeats it
    rcases Nat.lt_trichotomy i j with hlt | heq | hlt
    · exact absurd ⟨j, label, hj, i, hlt, hi⟩ hnone
    · exact heq
    · exact absurd ⟨i, label, hi, j, hlt, hj⟩ hnone

/-- Labels are known just if none is unknown. -/
theorem areKnown_iff : AreKnown stmts ↔ ¬ ∃ i label, IsUnknown stmts i label := by
  constructor
  · intro hknown hunknown
    obtain ⟨i, label, hnames, hnone⟩ := hunknown
    obtain ⟨j, hj⟩ := hknown i label hnames
    exact hnone j hj
  · intro hnone i label hnames
    by_contra hnot
    exact hnone ⟨i, label, hnames, not_exists.mp hnot⟩

/-! ## §2. Repeated labels. -/

/-- `k` statements are read, `seen` has the labels that they bear, and none of them repeats
one. -/
structure HasRead (stmts : List LabeledStatement) (k : Nat) (seen : List String) : Prop where
  mem_seen : ∀ a, a ∈ seen ↔ ∃ j < k, Bears stmts j a
  not_repeated : ∀ j < k, ∀ a, ¬ IsRepeated stmts j a

section

variable {a : String} {k : Nat} {seen : List String}

/-- A statement without a label adds nothing to what is seen. -/
theorem HasRead.unlabeled (h : HasRead stmts k seen) (hnone : ∀ a, ¬ Bears stmts k a) :
    HasRead stmts (k + 1) seen := by
  refine ⟨fun a => ?_, fun j hj a hrepeated => ?_⟩
  · rw [h.mem_seen, Nat.exists_lt_succ_right, or_iff_left (hnone a)]
  · rcases Nat.lt_succ_iff_lt_or_eq.mp hj with hlt | rfl
    · exact h.not_repeated j hlt a hrepeated
    · exact hnone a hrepeated.1

/-- A statement with a new label adds it. -/
theorem HasRead.labeled (h : HasRead stmts k seen) (hbears : Bears stmts k a) (ha : a ∉ seen) :
    HasRead stmts (k + 1) (a :: seen) := by
  refine ⟨fun b => ?_, fun j hj b hrepeated => ?_⟩
  · rw [List.mem_cons, h.mem_seen, Nat.exists_lt_succ_right, or_comm]
    exact or_congr_right ⟨fun heq => heq ▸ hbears, fun hb => hb.unique hbears⟩
  · rcases Nat.lt_succ_iff_lt_or_eq.mp hj with hlt | rfl
    · exact h.not_repeated j hlt b hrepeated
    · -- its label is none of those before
      obtain rfl := hbears.unique hrepeated.1
      exact ha ((h.mem_seen a).mpr hrepeated.2)

/-- A statement with a label that is seen is the first to repeat one. -/
theorem HasRead.eq_iff_isFirst (h : HasRead stmts k seen) (hbears : Bears stmts k a)
    (ha : a ∈ seen) : a = label ↔ ∃ i, IsFirst (IsRepeated stmts) i label := by
  have hfirst : IsFirst (IsRepeated stmts) k a :=
    ⟨⟨hbears, (h.mem_seen a).mp ha⟩, h.not_repeated⟩
  constructor
  · intro heq
    exact ⟨k, heq ▸ hfirst⟩
  · intro hother
    obtain ⟨i, hrepeated, hbefore⟩ := hother
    rcases Nat.lt_trichotomy i k with hlt | rfl | hlt
    · exact absurd hrepeated (h.not_repeated i hlt label)
    · exact hbears.unique hrepeated.1
    · exact absurd hfirst.1 (hbefore k hlt a)

end

/-- The search for a repeated label, once `k` statements are read.  None of them has repeated
a label, so that the first one to do so comes later. -/
theorem firstRepeated_labels_drop {rest : List LabeledStatement} :
    ∀ {k : Nat} {seen : List String}, stmts.drop k = rest → HasRead stmts k seen →
      (firstRepeated seen (labels rest) = some label
        ↔ ∃ i, IsFirst (IsRepeated stmts) i label) := by
  induction rest with
  | nil =>
      intro k seen hrest hread
      refine iff_of_false (fun h => by cases h) (fun hfirst => ?_)
      -- all statements are read
      obtain ⟨i, hrepeated, _⟩ := hfirst
      have hlength : stmts.length ≤ k := List.drop_eq_nil_iff.mp hrest
      have hi : i < stmts.length := hrepeated.1.lt_length
      exact hread.not_repeated i (by omega) label hrepeated
  | cons s rest ih =>
      intro k seen hrest hread
      have hs : stmts[k]? = some s := by
        have hhead : (stmts.drop k)[0]? = some s := by rw [hrest]; rfl
        rwa [List.getElem?_drop] at hhead
      have hdrop : stmts.drop (k + 1) = rest := by
        rw [← List.tail_drop, hrest]
        rfl
      cases hlabel : s.label with
      | none =>
          have hnone : ∀ a, ¬ Bears stmts k a := by
            intro a ha
            rw [bears_iff hs, hlabel] at ha
            cases ha
          have hlabels : labels (s :: rest) = labels rest := List.filterMap_cons_none hlabel
          rw [hlabels]
          exact ih hdrop (hread.unlabeled hnone)
      | some a =>
          have hbears : Bears stmts k a := ⟨s, hs, hlabel⟩
          have hlabels : labels (s :: rest) = a :: labels rest := List.filterMap_cons_some hlabel
          rw [hlabels, firstRepeated]
          by_cases ha : a ∈ seen
          · rw [if_pos ha, Option.some.injEq]
            exact hread.eq_iff_isFirst hbears ha
          · rw [if_neg ha]
            exact ih hdrop (hread.labeled hbears ha)

/-- What is found is the label of the first statement whose label was borne before. -/
theorem firstRepeated_labels_eq_some_iff :
    firstRepeated [] (labels stmts) = some label ↔ ∃ i, IsFirst (IsRepeated stmts) i label :=
  firstRepeated_labels_drop (k := 0) rfl
    ⟨fun _ => by simp, fun j hj => absurd hj (Nat.not_lt_zero j)⟩

theorem firstRepeated_labels_eq_none_iff :
    firstRepeated [] (labels stmts) = none ↔ AreDistinct stmts := by
  rw [areDistinct_iff, ← exists_isFirst_iff, exists_comm, Option.eq_none_iff_forall_ne_some,
    not_exists]
  exact forall_congr' fun label => not_congr firstRepeated_labels_eq_some_iff

/-! ## §3. Places of labels that are known. -/

theorem placeOf?_eq_none_iff : placeOf? stmts label = none ↔ ∀ j, ¬ Bears stmts j label := by
  unfold placeOf? Bears
  rw [List.findIdx?_eq_none_iff]
  constructor
  · intro hnone j hbears
    obtain ⟨s, hs, hlabel⟩ := hbears
    have := hnone s (List.mem_of_getElem? hs)
    simp [hlabel] at this
  · intro hnone s hs
    obtain ⟨j, hj⟩ := List.mem_iff_getElem?.mp hs
    rw [beq_eq_false_iff_ne]
    exact fun hlabel => hnone j ⟨s, hj, hlabel⟩

theorem bears_of_placeOf? (h : placeOf? stmts label = some i) : Bears stmts i label := by
  obtain ⟨hi, hlabel, _⟩ := List.findIdx?_eq_some_iff_getElem.mp h
  exact ⟨stmts[i], List.getElem?_eq_getElem hi, by simpa using hlabel⟩

/-- If no label is repeated, the place of a label is the one that bears it. -/
theorem placeOf?_eq_some_iff (hdistinct : AreDistinct stmts) :
    placeOf? stmts label = some i ↔ Bears stmts i label := by
  constructor
  · exact bears_of_placeOf?
  · intro hbears
    cases hplace : placeOf? stmts label with
    | none => exact absurd hbears (placeOf?_eq_none_iff.mp hplace i)
    | some j => rw [hdistinct j i label (bears_of_placeOf? hplace) hbears]

/-! ## §4. Unknown labels. -/

variable {place : String → Option Nat} {s : Statement} {flow : Flow}

/-- A statement leads nowhere just if the label that it names is not bound. -/
theorem flowOf_eq_error_iff :
    flowOf place s = .error label ↔ s.label? = some label ∧ place label = none := by
  cases s with
  | branch _ l | goto l =>
      simp only [flowOf, Statement.label?, Option.some.injEq]
      cases hl : place l with
      | none =>
          simp only [Except.error.injEq]
          exact ⟨fun heq => ⟨heq, heq ▸ hl⟩, fun h => h.1⟩
      | some j =>
          refine iff_of_false (fun h => by cases h) (fun h => ?_)
          obtain ⟨rfl, hnone⟩ := h
          rw [hl] at hnone
          cases hnone
  | assign | invoke | ret | throw | nop => simp [flowOf, Statement.label?]

theorem exists_flowOf_eq_ok_iff :
    (∃ flow, flowOf place s = .ok flow) ↔ ∀ label, s.label? = some label → place label ≠ none := by
  constructor
  · intro hok label hlabel hnone
    obtain ⟨flow, hflow⟩ := hok
    rw [flowOf_eq_error_iff.mpr ⟨hlabel, hnone⟩] at hflow
    cases hflow
  · intro hplaces
    cases hflow : flowOf place s with
    | ok flow => exact ⟨flow, rfl⟩
    | error label =>
        obtain ⟨hlabel, hnone⟩ := flowOf_eq_error_iff.mp hflow
        exact absurd hnone (hplaces label hlabel)

/-- A statement with its flow, if there is one. -/
def stepOf (place : String → Option Nat) (s : LabeledStatement) : Except String Step :=
  (flowOf place s.statement).map (⟨s.statement, ·⟩)

theorem resolve_eq_mapM (stmts : List LabeledStatement) :
    resolve place stmts = stmts.mapM (stepOf place) := by
  induction stmts with
  | nil => rfl
  | cons s rest ih =>
      rw [List.mapM_cons, resolve, ih, stepOf]
      cases flowOf place s.statement <;> rfl

theorem stepOf_eq_ok_iff {s : LabeledStatement} {step : Step} :
    stepOf place s = .ok step
      ↔ step.statement = s.statement ∧ flowOf place s.statement = .ok step.flow := by
  unfold stepOf
  cases hflow : flowOf place s.statement with
  | error label => simp [Except.map]
  | ok flow =>
      cases step
      simp [Except.map, eq_comm]

theorem stepOf_eq_error_iff {s : LabeledStatement} :
    stepOf place s = .error label ↔ s.statement.label? = some label ∧ place label = none := by
  unfold stepOf
  rw [← flowOf_eq_error_iff]
  cases flowOf place s.statement <;> simp [Except.map]

theorem exists_stepOf_eq_ok_iff {s : LabeledStatement} :
    (∃ step, stepOf place s = .ok step)
      ↔ ∀ label, s.statement.label? = some label → place label ≠ none := by
  rw [← exists_flowOf_eq_ok_iff]
  unfold stepOf
  cases flowOf place s.statement <;> simp [Except.map]

/-- Statements are not resolved because of the label that is the first unknown one. -/
theorem resolve_eq_error_iff :
    resolve (placeOf? stmts) stmts = .error label ↔ ∃ i, IsFirst (IsUnknown stmts) i label := by
  rw [resolve_eq_mapM, Traversal.mapM_eq_error_iff]
  refine exists_congr fun i => ?_
  constructor
  · intro hfirst
    obtain ⟨s, hs, hfails, hbefore⟩ := hfirst
    obtain ⟨hlabel, hnone⟩ := stepOf_eq_error_iff.mp hfails
    refine ⟨⟨⟨s, hs, hlabel⟩, placeOf?_eq_none_iff.mp hnone⟩, fun j hj other hunknown => ?_⟩
    -- the statements before have found the places of their labels
    obtain ⟨⟨t, ht, hother⟩, hnobody⟩ := hunknown
    exact exists_stepOf_eq_ok_iff.mp (hbefore j hj t ht) other hother
      (placeOf?_eq_none_iff.mpr hnobody)
  · intro hfirst
    obtain ⟨⟨⟨s, hs, hlabel⟩, hnobody⟩, hbefore⟩ := hfirst
    refine ⟨s, hs, stepOf_eq_error_iff.mpr ⟨hlabel, placeOf?_eq_none_iff.mpr hnobody⟩,
      fun j hj t ht => exists_stepOf_eq_ok_iff.mpr fun other hother hnone => ?_⟩
    exact hbefore j hj other ⟨⟨t, ht, hother⟩, placeOf?_eq_none_iff.mp hnone⟩

end ApiGuard.Body
