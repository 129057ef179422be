/-
  ApiGuard.Proofs.Guard.Assignments
  ─────────────────────────────────
  The last assignment to a local decides whether it is tainted.

  A statement taints the local that it assigns or clears it, by the markers in its text, and
  leaves all other locals as they are.  The locals of the two kinds of markers are tracked
  by the same rule, and neither kind looks at the other.  So what is tainted after some
  statements depends on one statement for each local:

      mem_track_iff              what a statement does to a local
      mem_foldl_track_iff        what statements come to
      last_assignment_decides    both kinds of taint, and the conditions that read them
      along_eq_through           so taint on a way is that of its statements in order
-/
import ApiGuard.Proofs.Guard.Paths
import ApiGuard.Proofs.History

namespace ApiGuard

/-- The statement assigns the local. -/
def Statement.Assigns (name : String) (s : Statement) : Prop := s.assigned? = some name

instance (name : String) (s : Statement) : Decidable (s.Assigns name) :=
  inferInstanceAs (Decidable (s.assigned? = some name))

namespace Taint

/-! ## §1. Locals of one kind. -/

/-- The tainted locals after a statement, if `marks` finds the markers in its text. -/
def track (marks : String → Bool) (locals : SortedSet String) (s : Statement) :
    SortedSet String :=
  match s.assigned? with
  | none => locals
  | some name => reassign locals name (marks s.render)

variable {marks : String → Bool} {locals : SortedSet String} {name : String}

theorem mem_reassign_iff {target : String} {tainted : Bool} :
    name ∈ reassign locals target tainted
      ↔ (name = target ∧ tainted = true) ∨ (name ≠ target ∧ name ∈ locals) := by
  unfold reassign
  by_cases hname : name = target
  · cases tainted <;> simp [hname]
  · cases tainted <;> simp [hname]

/-- A statement decides on the local that it assigns, and on no other. -/
theorem mem_track_iff {s : Statement} :
    name ∈ track marks locals s
      ↔ (s.Assigns name ∧ marks s.render = true) ∨ (¬ s.Assigns name ∧ name ∈ locals) := by
  unfold track Statement.Assigns
  cases hassigned : s.assigned? with
  | none => simp
  | some target =>
      show name ∈ reassign locals target (marks s.render) ↔ _
      rw [mem_reassign_iff, Option.some.injEq, ne_eq, eq_comm]

/-- After some statements a local is tainted just if there is a last one that assigns it, and
that has a marker. -/
theorem mem_foldl_track_iff (stmts : List Statement) :
    name ∈ stmts.foldl (track marks) ∅
      ↔ ∃ s, IsLast (Statement.Assigns name) stmts s ∧ marks s.render = true := by
  induction stmts using List.reverseRecOn with
  | nil =>
      refine iff_of_false (SortedSet.not_mem_empty name) ?_
      intro hlast
      obtain ⟨s, hs, _⟩ := hlast
      exact not_isLast_nil hs
  | append_singleton stmts t ih =>
      rw [List.foldl_append, List.foldl_cons, List.foldl_nil, mem_track_iff, ih]
      simp only [isLast_concat_iff]
      -- either the statement assigns the local, and is the last one, or it does not matter
      by_cases ht : t.Assigns name
      · simp [ht]
      · simp [ht]

/-! ## §2. Both kinds. -/

/-- The taint after statements, one after the other. -/
def through (markers : GuardMarkers) (stmts : List Statement) : Taint :=
  stmts.foldl (update markers) ∅

variable {markers : GuardMarkers}

theorem version_update (taint : Taint) (s : Statement) :
    (taint.update markers s).version = track markers.marksVersion taint.version s := by
  unfold update track
  cases s.assigned? <;> rfl

theorem feature_update (taint : Taint) (s : Statement) :
    (taint.update markers s).feature = track markers.marksFeature taint.feature s := by
  unfold update track
  cases s.assigned? <;> rfl

theorem through_concat (stmts : List Statement) (s : Statement) :
    through markers (stmts ++ [s]) = (through markers stmts).update markers s := by
  unfold through
  rw [List.foldl_append]
  rfl

/-- The locals of the one kind do not depend on the markers of the other. -/
theorem version_through (stmts : List Statement) :
    (through markers stmts).version = stmts.foldl (track markers.marksVersion) ∅ := by
  induction stmts using List.reverseRecOn with
  | nil => rfl
  | append_singleton stmts s ih =>
      rw [through_concat, version_update, ih, List.foldl_append]
      rfl

theorem feature_through (stmts : List Statement) :
    (through markers stmts).feature = stmts.foldl (track markers.marksFeature) ∅ := by
  induction stmts using List.reverseRecOn with
  | nil => rfl
  | append_singleton stmts s ih =>
      rw [through_concat, feature_update, ih, List.foldl_append]
      rfl

/-! ## §3. Conditions. -/

theorem mem_uses_iff {p : Predicate} :
    name ∈ p.uses ↔ p.left = .localVar name ∨ p.right = .localVar name := by
  have hlocal : ∀ o : Operand, name ∈ o.local?.toList ↔ o = .localVar name := by
    intro o
    cases o <;> simp [Operand.local?, eq_comm]
  unfold Predicate.uses
  rw [List.mem_append, hlocal, hlocal]

theorem isGuard_iff {taint : Taint} {p : Predicate} :
    taint.isGuard p = true
      ↔ ∃ name, (p.left = .localVar name ∨ p.right = .localVar name)
          ∧ (name ∈ taint.version ∨ name ∈ taint.feature) := by
  unfold isGuard
  simp only [List.any_eq_true, Bool.or_eq_true, SortedSet.contains_iff, mem_uses_iff]

end Taint

theorem GuardMarkers.marksVersion_iff {markers : GuardMarkers} {text : String} :
    markers.marksVersion text = true
      ↔ ∃ field ∈ markers.versionFields, field.toList <:+: text.toList := by
  unfold marksVersion
  simp only [List.any_eq_true, Text.mentions_iff]

theorem GuardMarkers.marksFeature_iff {markers : GuardMarkers} {text : String} :
    markers.marksFeature text = true
      ↔ ∃ check ∈ markers.featureChecks, check.toList <:+: text.toList := by
  unfold marksFeature
  simp only [List.any_eq_true, Text.mentions_iff]

namespace Taint

/-- After any statements, a local is derived from the version just if some statement assigns
it and a field of the version occurs in the text of the last one that does; and it is
derived from a check just if a check occurs there.  The markers of the one kind do not matter
for the other.  A condition is a guard just if one of its sides is a local that is in one of
the sets. -/
theorem last_assignment_decides (markers : GuardMarkers) (stmts : List Statement) :
    ((∀ name, name ∈ (through markers stmts).version
        ↔ ∃ s, IsLast (Statement.Assigns name) stmts s
            ∧ ∃ field ∈ markers.versionFields, field.toList <:+: s.render.toList)
      ∧ (∀ name, name ∈ (through markers stmts).feature
        ↔ ∃ s, IsLast (Statement.Assigns name) stmts s
            ∧ ∃ check ∈ markers.featureChecks, check.toList <:+: s.render.toList))
    ∧ ((∀ checks, (through { markers with featureChecks := checks } stmts).version
          = (through markers stmts).version)
      ∧ (∀ fields, (through { markers with versionFields := fields } stmts).feature
          = (through markers stmts).feature))
    ∧ (∀ p, (through markers stmts).isGuard p = true
        ↔ ∃ name, (p.left = .localVar name ∨ p.right = .localVar name)
            ∧ (name ∈ (through markers stmts).version
              ∨ name ∈ (through markers stmts).feature)) := by
  refine ⟨⟨fun name => ?_, fun name => ?_⟩, ⟨fun checks => ?_, fun fields => ?_⟩,
    fun p => isGuard_iff⟩
  · rw [version_through, mem_foldl_track_iff]
    simp only [GuardMarkers.marksVersion_iff]
  · rw [feature_through, mem_foldl_track_iff]
    simp only [GuardMarkers.marksFeature_iff]
  · rw [version_through, version_through]
    rfl
  · rw [feature_through, feature_through]
    rfl

/-- The release is read into a local, and then the local is assigned again. -/
example :
    let stmts := [.assign "sdk" (.field versionNumberField), .assign "sdk" (.int 5)]
    (through {} (stmts.take 1)).isGuard ⟨.localVar "sdk", .ge, .int 26⟩ = true
      ∧ (through {} stmts).isGuard ⟨.localVar "sdk", .ge, .int 26⟩ = false := by
  decide +kernel

/-! ## §4. Ways. -/

/-- The taint on a way is that of the statements at its places. -/
theorem along_eq_through (markers : GuardMarkers) (body : Body) (places : List Nat) :
    along markers body places = through markers (places.filterMap body.statement?) := by
  induction places using List.reverseRecOn with
  | nil => rfl
  | append_singleton places i ih =>
      unfold along at ih ⊢
      rw [List.foldl_append, ih, List.filterMap_append]
      show (through markers _).after markers body i = _
      unfold Taint.after
      cases hs : body.statement? i with
      | none => simp [hs]
      | some s => simp [hs, through_concat]

end Taint

end ApiGuard
