/-
  ApiGuard.Proofs.History
  ───────────────────────
  What operations do, one after the other.

  A history is a list of operations, and `state` is what each history leads to.  If an
  operation may make something true and none makes it false again, then it is true in the
  end just if some operation has made it true, in the state that those before it led to:

      happensIn_concat       the last operation does it, or one before
      holds_iff_happensIn    what each operation adds is what happens in the history

  If later operations undo what earlier ones did, the last one that matters decides:

      isLast_concat_iff      it is the last of all, or the last one before that
      exists_isLast_iff      there is a last one if there is any
-/
import Mathlib.Data.List.Basic
import Mathlib.Data.List.Induction

namespace ApiGuard

universe u v w

variable {σ : Type u} {ω : Type v} {α : Type w}

/-- Some operation of the history does this to `a`, in the state that those before it led
to. -/
def HappensIn (state : List ω → σ) (Does : σ → ω → α → Prop) (ops : List ω) (a : α) : Prop :=
  ∃ before op after, ops = before ++ op :: after ∧ Does (state before) op a

variable {state : List ω → σ} {Does : σ → ω → α → Prop} {a : α}

theorem not_happensIn_nil : ¬ HappensIn state Does [] a := by
  intro hhappens
  obtain ⟨before, op, after, hops, _⟩ := hhappens
  exact List.cons_ne_nil op after (List.append_eq_nil_iff.mp hops.symm).2

/-- The last operation does it, or one before. -/
theorem happensIn_concat {ops : List ω} {op : ω} :
    HappensIn state Does (ops ++ [op]) a
      ↔ HappensIn state Does ops a ∨ Does (state ops) op a := by
  constructor
  · intro hhappens
    obtain ⟨before, op', after, hops, hdoes⟩ := hhappens
    rcases List.eq_nil_or_concat' after with rfl | ⟨rest, last, rfl⟩
    · obtain ⟨rfl, heq⟩ := List.append_inj' hops rfl
      cases heq
      exact .inr hdoes
    · -- some operation comes after it, so that it is not the last one
      rw [← List.cons_append, ← List.append_assoc] at hops
      obtain ⟨rfl, _⟩ := List.append_inj' hops rfl
      exact .inl ⟨before, op', rest, rfl, hdoes⟩
  · rintro (⟨before, op', after, rfl, hdoes⟩ | hdoes)
    · exact ⟨before, op', after ++ [op], by simp, hdoes⟩
    · exact ⟨ops, op, [], rfl, hdoes⟩

/-- What each operation adds to what holds at first is what happens in the history. -/
theorem holds_iff_happensIn (state : List ω → σ) (P : σ → α → Prop) (a : α)
    (hnil : ¬ P (state []) a)
    (hstep : ∀ ops op, P (state (ops ++ [op])) a ↔ P (state ops) a ∨ Does (state ops) op a)
    (ops : List ω) : P (state ops) a ↔ HappensIn state Does ops a := by
  induction ops using List.reverseRecOn with
  | nil => exact iff_of_false hnil not_happensIn_nil
  | append_singleton ops op ih => rw [hstep, ih, happensIn_concat]

/-! ## §2. The last of its kind. -/

/-- The element is the last one of the list that has the property. -/
def IsLast (P : α → Prop) (l : List α) (a : α) : Prop :=
  ∃ before after, l = before ++ a :: after ∧ P a ∧ ∀ b ∈ after, ¬ P b

section

variable {P : α → Prop} {l : List α} {b : α}

theorem IsLast.mem (h : IsLast P l a) : a ∈ l := by
  obtain ⟨before, after, rfl, _⟩ := h
  exact List.mem_append_right before List.mem_cons_self

theorem IsLast.holds (h : IsLast P l a) : P a := by
  obtain ⟨_, _, _, ha, _⟩ := h
  exact ha

theorem not_isLast_nil : ¬ IsLast P [] a :=
  fun h => List.not_mem_nil h.mem

/-- The last one is the last element of the list, or else the last one before that. -/
theorem isLast_concat_iff : IsLast P (l ++ [b]) a ↔ (P b ∧ a = b) ∨ (¬ P b ∧ IsLast P l a) := by
  constructor
  · intro hlast
    obtain ⟨before, after, hl, ha, hafter⟩ := hlast
    rcases List.eq_nil_or_concat' after with rfl | ⟨rest, last, rfl⟩
    · obtain ⟨_, heq⟩ := List.append_inj' hl rfl
      cases heq
      exact .inl ⟨ha, rfl⟩
    · rw [← List.cons_append, ← List.append_assoc] at hl
      obtain ⟨rfl, heq⟩ := List.append_inj' hl rfl
      cases heq
      exact .inr ⟨hafter b (by simp), before, rest, rfl, ha,
        fun c hc => hafter c (List.mem_append_left _ hc)⟩
  · intro hcases
    rcases hcases with ⟨hb, rfl⟩ | ⟨hb, before, after, rfl, ha, hafter⟩
    · exact ⟨l, [], rfl, hb, fun c hc => absurd hc List.not_mem_nil⟩
    · refine ⟨before, after ++ [b], by simp, ha, fun c hc => ?_⟩
      rcases List.mem_append.mp hc with hc | hc
      · exact hafter c hc
      · rw [List.mem_singleton.mp hc]
        exact hb

/-- If some element has the property, one of them is the last. -/
theorem exists_isLast_iff : (∃ a, IsLast P l a) ↔ ∃ a ∈ l, P a := by
  constructor
  · intro hlast
    obtain ⟨a, hlast⟩ := hlast
    exact ⟨a, hlast.mem, hlast.holds⟩
  · induction l using List.reverseRecOn with
    | nil => simp
    | append_singleton l b ih =>
        intro hsome
        obtain ⟨a, ha, hP⟩ := hsome
        by_cases hb : P b
        · exact ⟨b, isLast_concat_iff.mpr (.inl ⟨hb, rfl⟩)⟩
        · rcases List.mem_append.mp ha with ha | ha
          · obtain ⟨c, hlast⟩ := ih ⟨a, ha, hP⟩
            exact ⟨c, isLast_concat_iff.mpr (.inr ⟨hb, hlast⟩)⟩
          · rw [List.mem_singleton.mp ha] at hP
            exact absurd hP hb

end

end ApiGuard
