/-
  ApiGuard.Proofs.Traversal
  ─────────────────────────
  Going through a list with an operation that may fail.

  The traversal stops at the first item for which the operation fails, and its error is
  the one that it gives.  It succeeds just if there is no such item, and has the results of
  the operation then, in order:

      mapM_eq_ok_iff       the results, item by item
      mapM_eq_error_iff    the first item that fails, by its place
-/
import Mathlib.Data.List.Forall2

namespace ApiGuard.Traversal

variable {ε α β : Type} {f : α → Except ε β}

/-- A traversal that succeeds gives for each item what the operation gives. -/
theorem mapM_eq_ok_iff {l : List α} :
    ∀ {out : List β}, l.mapM f = .ok out ↔ List.Forall₂ (fun a b => f a = .ok b) l out := by
  induction l with
  | nil =>
      intro out
      rw [List.mapM_nil, List.forall₂_nil_left_iff]
      show Except.ok [] = Except.ok out ↔ out = []
      rw [Except.ok.injEq, eq_comm]
  | cons a rest ih =>
      intro out
      rw [List.mapM_cons, List.forall₂_cons_left_iff]
      cases ha : f a with
      | error e =>
          -- nothing comes after the item that fails
          show Except.error e = Except.ok out ↔ _
          simp
      | ok b =>
          cases hrest : rest.mapM f with
          | error e =>
              show Except.error e = Except.ok out ↔ _
              simp [← ih, hrest]
          | ok tail =>
              show Except.ok (b :: tail) = Except.ok out ↔ _
              simp [← ih, hrest, eq_comm]

/-- The error of a traversal is that of the first item for which the operation fails. -/
theorem mapM_eq_error_iff {l : List α} {e : ε} :
    l.mapM f = .error e
      ↔ ∃ (i : Nat) (a : α), l[i]? = some a ∧ f a = .error e
          ∧ ∀ j < i, ∀ b, l[j]? = some b → ∃ c, f b = .ok c := by
  induction l with
  | nil =>
      rw [List.mapM_nil]
      show Except.ok [] = Except.error e ↔ _
      simp
  | cons a rest ih =>
      rw [List.mapM_cons]
      cases ha : f a with
      | error e' =>
          -- the first item fails, so that no other is the first one to fail
          show Except.error e' = Except.error e ↔ _
          constructor
          · intro he
            exact ⟨0, a, rfl, ha.trans (by rw [Except.error.inj he]),
              fun j hj => absurd hj (Nat.not_lt_zero j)⟩
          · intro hfirst
            obtain ⟨i, b, hb, hfails, hbefore⟩ := hfirst
            cases i with
            | zero =>
                obtain rfl : a = b := Option.some.inj hb
                rw [ha] at hfails
                rw [Except.error.inj hfails]
            | succ i =>
                obtain ⟨c, hc⟩ := hbefore 0 (Nat.succ_pos i) a rfl
                rw [ha] at hc
                cases hc
      | ok b =>
          -- the first item does not fail, and the others move up by one place
          have hrest : (do let bs ← rest.mapM f; pure (b :: bs) : Except ε (List β)) = .error e
              ↔ rest.mapM f = .error e := by
            cases rest.mapM f <;> simp [bind, Except.bind, pure, Except.pure]
          show (do let bs ← rest.mapM f; pure (b :: bs) : Except ε (List β)) = .error e ↔ _
          rw [hrest, ih]
          constructor
          · intro hfirst
            obtain ⟨i, d, hd, hfails, hbefore⟩ := hfirst
            refine ⟨i + 1, d, hd, hfails, fun j hj c hc => ?_⟩
            cases j with
            | zero => exact ⟨b, by rw [← Option.some.inj hc, ha]⟩
            | succ j => exact hbefore j (by omega) c hc
          · intro hfirst
            obtain ⟨i, d, hd, hfails, hbefore⟩ := hfirst
            cases i with
            | zero =>
                obtain rfl : a = d := Option.some.inj hd
                rw [ha] at hfails
                cases hfails
            | succ i =>
                exact ⟨i, d, hd, hfails, fun j hj c hc => hbefore (j + 1) (by omega) c hc⟩

/-- A traversal succeeds if the operation does for every item. -/
theorem exists_mapM_eq_ok_iff {l : List α} :
    (∃ out, l.mapM f = .ok out) ↔ ∀ a ∈ l, ∃ b, f a = .ok b := by
  constructor
  · intro hok a ha
    obtain ⟨out, hout⟩ := hok
    obtain ⟨hlength, hitems⟩ := List.forall₂_iff_get.mp (mapM_eq_ok_iff.mp hout)
    obtain ⟨i, hi, rfl⟩ := List.getElem_of_mem ha
    exact ⟨_, hitems i hi (hlength ▸ hi)⟩
  · intro hall
    cases hl : l.mapM f with
    | ok out => exact ⟨out, rfl⟩
    | error e =>
        -- some item would fail
        obtain ⟨i, a, ha, hfails, _⟩ := mapM_eq_error_iff.mp hl
        obtain ⟨b, hb⟩ := hall a (List.mem_of_getElem? ha)
        rw [hfails] at hb
        cases hb

end ApiGuard.Traversal
