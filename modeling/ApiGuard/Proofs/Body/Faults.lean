/-
  ApiGuard.Proofs.Body.Faults
  ───────────────────────────
  Which statements make a body, and what is wrong with the others.

  A fault is that there is no statement, or the first repeated label, or, if no label is
  repeated, the first unknown one.  There is one fault at most, and building reports it:

      build_eq_error_iff        the error is the fault
      exists_build_eq_ok_iff    and a body is built if there is none
      build_faults              both for all statements
-/
import ApiGuard.Proofs.Body.Labels

namespace ApiGuard.Body

/-- What is wrong with the statements of a method. -/
inductive IsFault (signature : String) (stmts : List LabeledStatement) : BodyError → Prop where
  /-- There is no statement. -/
  | empty (nothing : stmts = []) : IsFault signature stmts (.empty signature)
  /-- A label was borne before, for the first time. -/
  | duplicateLabel {i : Nat} {label : String} (first : IsFirst (IsRepeated stmts) i label) :
      IsFault signature stmts (.duplicateLabel label signature)
  /-- A label is named that no statement bears, for the first time, and none is repeated. -/
  | unknownLabel {i : Nat} {label : String} (distinct : AreDistinct stmts)
      (first : IsFirst (IsUnknown stmts) i label) :
      IsFault signature stmts (.unknownLabel label signature)

variable {signature label : String} {stmts : List LabeledStatement} {body : Body}

/-! ## §1. The ways through the construction. -/

theorem build_nil (signature : String) : build signature [] = .error (.empty signature) := rfl

theorem build_of_repeated (hne : stmts ≠ [])
    (h : firstRepeated [] (labels stmts) = some label) :
    build signature stmts = .error (.duplicateLabel label signature) := by
  unfold build
  rw [if_neg hne, h]

theorem build_of_unknown (hne : stmts ≠ []) (hdistinct : firstRepeated [] (labels stmts) = none)
    (h : resolve (placeOf? stmts) stmts = .error label) :
    build signature stmts = .error (.unknownLabel label signature) := by
  unfold build
  rw [if_neg hne, hdistinct]
  dsimp only
  split
  next other hother => rw [Except.error.inj (h.symm.trans hother)]
  next steps hsteps => rw [h] at hsteps; cases hsteps

theorem build_of_resolved {steps : List Step} (hne : stmts ≠ [])
    (hdistinct : firstRepeated [] (labels stmts) = none)
    (h : resolve (placeOf? stmts) stmts = .ok steps) :
    build signature stmts
      = .ok ⟨signature, steps.toArray, lt_of_resolve h, fits_of_resolve h⟩ := by
  unfold build
  rw [if_neg hne, hdistinct]
  dsimp only
  split
  next other hother => rw [h] at hother; cases hother
  next steps' hsteps =>
      obtain rfl : steps = steps' := Except.ok.inj (h.symm.trans hsteps)
      rfl

/-! ## §2. Faults. -/

/-- A fault is what building reports. -/
theorem IsFault.build_eq {e : BodyError} (h : IsFault signature stmts e) :
    build signature stmts = .error e := by
  have nonempty : ∀ {i : Nat} {s : LabeledStatement}, stmts[i]? = some s → stmts ≠ [] := by
    intro i s hs hnil
    rw [hnil] at hs
    cases hs
  cases h with
  | empty nothing => rw [nothing, build_nil]
  | duplicateLabel first =>
      obtain ⟨s, hs, _⟩ := first.1.1
      exact build_of_repeated (nonempty hs) (firstRepeated_labels_eq_some_iff.mpr ⟨_, first⟩)
  | unknownLabel distinct first =>
      obtain ⟨s, hs, _⟩ := first.1.1
      exact build_of_unknown (nonempty hs) (firstRepeated_labels_eq_none_iff.mpr distinct)
        (resolve_eq_error_iff.mpr ⟨_, first⟩)

/-- Either there is a fault, or the statements are resolved and make a body. -/
theorem isFault_or_build (signature : String) (stmts : List LabeledStatement) :
    (∃ e, IsFault signature stmts e)
      ∨ stmts ≠ [] ∧ AreDistinct stmts ∧ AreKnown stmts
        ∧ ∃ body steps, build signature stmts = .ok body ∧ body.signature = signature
          ∧ resolve (placeOf? stmts) stmts = .ok steps ∧ body.steps = steps.toArray := by
  by_cases hne : stmts = []
  · exact .inl ⟨_, .empty hne⟩
  cases hrepeated : firstRepeated [] (labels stmts) with
  | some label =>
      obtain ⟨i, hfirst⟩ := firstRepeated_labels_eq_some_iff.mp hrepeated
      exact .inl ⟨_, .duplicateLabel hfirst⟩
  | none =>
      have hdistinct := firstRepeated_labels_eq_none_iff.mp hrepeated
      cases hresolve : resolve (placeOf? stmts) stmts with
      | error label =>
          obtain ⟨i, hfirst⟩ := resolve_eq_error_iff.mp hresolve
          exact .inl ⟨_, .unknownLabel hdistinct hfirst⟩
      | ok steps =>
          -- an unknown label would have stopped the resolving
          have hknown : AreKnown stmts := by
            rw [areKnown_iff, ← exists_isFirst_iff, exists_comm]
            intro hunknown
            obtain ⟨label, hlabel⟩ := hunknown
            rw [resolve_eq_error_iff.mpr hlabel] at hresolve
            cases hresolve
          exact .inr ⟨hne, hdistinct, hknown, _, steps, build_of_resolved hne hrepeated hresolve,
            rfl, rfl, rfl⟩

/-- The error is the fault of the statements. -/
theorem build_eq_error_iff {e : BodyError} :
    build signature stmts = .error e ↔ IsFault signature stmts e := by
  constructor
  · intro herror
    rcases isFault_or_build signature stmts with ⟨e', hfault⟩ | ⟨_, _, _, body, _, hbody, _⟩
    · obtain rfl : e' = e := Except.error.inj (hfault.build_eq.symm.trans herror)
      exact hfault
    · rw [hbody] at herror
      cases herror
  · exact IsFault.build_eq

/-- Statements that have a fault are not those of a body. -/
theorem not_isFault_iff :
    (¬ ∃ e, IsFault signature stmts e) ↔ stmts ≠ [] ∧ AreDistinct stmts ∧ AreKnown stmts := by
  constructor
  · intro hnone
    obtain hfault | ⟨hne, hdistinct, hknown, _⟩ := isFault_or_build signature stmts
    · exact absurd hfault hnone
    · exact ⟨hne, hdistinct, hknown⟩
  · intro hgood hfault
    obtain ⟨hne, hdistinct, hknown⟩ := hgood
    obtain ⟨e, hfault⟩ := hfault
    cases hfault with
    | empty nothing => exact hne nothing
    | duplicateLabel first => exact areDistinct_iff.mp hdistinct ⟨_, _, first.1⟩
    | unknownLabel _ first => exact areKnown_iff.mp hknown ⟨_, _, first.1⟩

/-- A body is built from statements if there are some, their labels are distinct, and those
that they name are known. -/
theorem exists_build_eq_ok_iff :
    (∃ body, build signature stmts = .ok body)
      ↔ stmts ≠ [] ∧ AreDistinct stmts ∧ AreKnown stmts := by
  rw [← @not_isFault_iff signature stmts]
  simp only [← build_eq_error_iff]
  cases build signature stmts <;> simp

/-- A body is built from the statements of a method just if there are some, no two of them
bear one label, and each label that a branch or a jump names, reached or not, is borne by
some statement.  Otherwise the error is their fault: that there is none; or the label of
the first statement whose label one before it bears; or else the label that the first
branch or jump to a label that none bears names; with the signature of the method. -/
theorem build_faults (signature : String) (stmts : List LabeledStatement) :
    ((∃ body, build signature stmts = .ok body)
      ↔ stmts ≠ [] ∧ AreDistinct stmts ∧ AreKnown stmts)
    ∧ (∀ e, build signature stmts = .error e ↔ IsFault signature stmts e) :=
  ⟨exists_build_eq_ok_iff, fun _ => build_eq_error_iff⟩

/-- A repeated label is reported although a label named before it is unknown. -/
example : build "<app.Main: void run()>"
    [⟨none, .goto "nowhere"⟩, ⟨some "end", .nop⟩, ⟨some "end", .ret none⟩]
      = .error (.duplicateLabel "end" "<app.Main: void run()>") := by
  cbv

end ApiGuard.Body
