/-
  ApiGuard.Proofs.Body.Entries
  ────────────────────────────
  The places that control comes to from no entry.

  An entry is the first place, or one to which control goes from no other.  Any other
  place has a predecessor, and so one that is not reached has predecessors without end.
  As there are only so many places, it lies behind a loop:

      exists_flows_of_not_isReached    it has a predecessor that is not reached either
      isBehindLoop_of_not_isReached    it lies behind a loop that is not reached
-/
import ApiGuard.Proofs.Body.Flow
import Mathlib.Data.Fintype.EquivFin
import Mathlib.Order.WellFounded

namespace ApiGuard.Body

variable {body : Body} {i j : Nat}

theorem lt_size_of_flows (h : body.Flows i j) : i < body.size := by
  unfold Flows successors flow? at h
  unfold size
  by_contra hle
  rw [Array.getElem?_eq_none (Nat.le_of_not_lt hle)] at h
  cases h

theorem mem_entries_iff :
    i ∈ body.entries ↔ i < body.size ∧ (i = 0 ∨ ∀ j, ¬ body.Flows j i) := by
  have hentered : ((List.range body.size).flatMap body.successors).contains i = true
      ↔ ∃ j, body.Flows j i := by
    rw [List.contains_iff_mem, List.mem_flatMap]
    constructor
    · rintro ⟨j, _, hflow⟩
      exact ⟨j, hflow⟩
    · rintro ⟨j, hflow⟩
      exact ⟨j, List.mem_range.mpr (lt_size_of_flows hflow), hflow⟩
  unfold entries
  rw [List.mem_filter, List.mem_range, Bool.or_eq_true, decide_eq_true_eq, Bool.not_eq_true',
    Bool.eq_false_iff, ne_eq, hentered, not_exists]

theorem IsReached.of_mem_entries (h : i ∈ body.entries) : body.IsReached i := ⟨i, h, .refl⟩

theorem IsReached.flows (h : body.IsReached i) (hflow : body.Flows i j) : body.IsReached j := by
  obtain ⟨entry, hentry, hway⟩ := h
  exact ⟨entry, hentry, hway.tail hflow⟩

/-- A place that is not reached has a predecessor that is not reached either. -/
theorem exists_flows_of_not_isReached (hi : i < body.size) (hnot : ¬ body.IsReached i) :
    ∃ j, body.Flows j i ∧ ¬ body.IsReached j := by
  by_contra hnone
  refine hnot (.of_mem_entries (mem_entries_iff.mpr ⟨hi, .inr fun j hflow => ?_⟩))
  exact hnone ⟨j, hflow, fun hj => hnot (hj.flows hflow)⟩

/-- The place lies behind a loop that no entry leads to. -/
def IsBehindLoop (body : Body) (i : Nat) : Prop :=
  ∃ j, ¬ body.IsReached j ∧ Relation.TransGen body.Flows j j ∧ Relation.ReflTransGen body.Flows j i

/-- The places not reached from which control may come to the given one. -/
abbrev UnreachedTo (body : Body) (i : Nat) : Type :=
  { j : Fin body.size // ¬ body.IsReached j ∧ Relation.ReflTransGen body.Flows j i }

/-- A place that is not reached lies behind a loop that is not reached. -/
theorem isBehindLoop_of_not_isReached (hi : i < body.size) (hnot : ¬ body.IsReached i) :
    body.IsBehindLoop i := by
  by_contra hnone
  -- without a loop some of these places would have no predecessor among them
  have hwf : WellFounded fun a b : body.UnreachedTo i => Relation.TransGen body.Flows a.1 b.1 := by
    have : IsTrans (body.UnreachedTo i) fun a b => Relation.TransGen body.Flows a.1 b.1 :=
      ⟨fun _ _ _ => Relation.TransGen.trans⟩
    have : Std.Irrefl fun a b : body.UnreachedTo i => Relation.TransGen body.Flows a.1 b.1 :=
      ⟨fun a hloop => hnone ⟨a.1, a.2.1, hloop, a.2.2⟩⟩
    exact Finite.wellFounded_of_trans_of_irrefl _
  obtain ⟨⟨m, hm, hway⟩, _, hfirst⟩ :=
    hwf.has_min Set.univ ⟨⟨⟨i, hi⟩, hnot, .refl⟩, Set.mem_univ _⟩
  obtain ⟨j, hflow, hj⟩ := exists_flows_of_not_isReached m.2 hm
  exact hfirst ⟨⟨j, lt_size_of_flows hflow⟩, hj, .head hflow hway⟩ (Set.mem_univ _)
    (.single hflow)

end ApiGuard.Body
