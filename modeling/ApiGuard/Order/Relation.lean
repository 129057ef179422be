/-
  ApiGuard.Order.Relation
  ───────────────────────
  Finite relations: to each key the set of what it is related to.

      mem_image_add  :  b ∈ (r.add k a).image j  ↔  (j = k ∧ b = a) ∨ b ∈ r.image j

  A relation is proper if it keeps no key without an element; it is then known by
  what it relates.
-/
import ApiGuard.Order.SortedMap

namespace ApiGuard

open Std

universe u v

/-- A finite relation between keys and elements. -/
abbrev Relation (κ : Type u) (α : Type v) [Ord κ] [Ord α] := SortedMap κ (SortedSet α)

namespace Relation

variable {κ : Type u} {α : Type v} [Ord κ] [Ord α]

/-! ## §1. Images and keys. -/

/-- What the key is related to. -/
def image (r : Relation κ α) (k : κ) : SortedSet α := r.findD k ∅

@[simp] theorem image_empty (k : κ) : image (∅ : Relation κ α) k = ∅ := rfl

/-- No key is kept without an element that it is related to. -/
def IsProper (r : Relation κ α) : Prop := ∀ k s, r.find? k = some s → s ≠ ∅

theorem isProper_empty : IsProper (∅ : Relation κ α) := by
  intro k s hs
  cases hs

theorem find?_of_mem_image {r : Relation κ α} {k : κ} {a : α} (h : a ∈ image r k) :
    r.find? k = some (image r k) := by
  unfold image SortedMap.findD at h ⊢
  cases hfind : r.find? k with
  | none =>
      rw [hfind] at h
      exact absurd h (SortedSet.not_mem_empty a)
  | some s => rfl

/-- Found of a key is its set, unless that is empty. -/
theorem IsProper.find?_eq_some_iff {r : Relation κ α} (h : IsProper r) {k : κ}
    {s : SortedSet α} : r.find? k = some s ↔ s ≠ ∅ ∧ image r k = s := by
  unfold image SortedMap.findD
  constructor
  · intro hs
    exact ⟨h k s hs, by rw [hs]; rfl⟩
  · intro hs
    obtain ⟨hne, himage⟩ := hs
    cases hfind : r.find? k with
    | none =>
        rw [hfind] at himage
        exact absurd himage.symm hne
    | some t =>
        rw [hfind] at himage
        exact congrArg some himage

theorem IsProper.mem_keys_iff [LawfulEqOrd κ] {r : Relation κ α} (h : IsProper r) {k : κ} :
    k ∈ r.keys ↔ ∃ a, a ∈ image r k := by
  rw [SortedMap.mem_keys_iff]
  unfold SortedMap.contains
  rw [Option.isSome_iff_exists]
  constructor
  · intro hkept
    obtain ⟨s, hs⟩ := hkept
    obtain ⟨hne, rfl⟩ := h.find?_eq_some_iff.mp hs
    exact SortedSet.exists_mem_of_ne_empty hne
  · intro hrelated
    obtain ⟨a, ha⟩ := hrelated
    exact ⟨_, find?_of_mem_image ha⟩

theorem image_of_mem_toList [LawfulEqOrd κ] {r : Relation κ α} {k : κ} {s : SortedSet α}
    (h : (k, s) ∈ r.toList) : image r k = s := by
  unfold image SortedMap.findD
  rw [SortedMap.mem_toList_iff.mp h]
  rfl

/-! ## §2. Adding. -/

variable [TransOrd κ] [LawfulEqOrd κ] [TransOrd α] [LawfulEqOrd α]

/-- Relate a key to an element. -/
def add (r : Relation κ α) (k : κ) (a : α) : Relation κ α := r.insert k ((image r k).insert a)

theorem image_add [DecidableEq κ] (r : Relation κ α) (j k : κ) (a : α) :
    image (add r k a) j = if j = k then (image r k).insert a else image r j := by
  simp only [image, add, SortedMap.findD, SortedMap.find?_insert]
  split <;> rfl

/-- A key is related to what it was related to before, and to what was added. -/
theorem mem_image_add [DecidableEq κ] {r : Relation κ α} {j k : κ} {a b : α} :
    b ∈ image (add r k a) j ↔ (j = k ∧ b = a) ∨ b ∈ image r j := by
  rw [image_add]
  split
  next h => simp [h]
  next h => simp [h]

theorem IsProper.add [DecidableEq κ] {r : Relation κ α} (h : IsProper r) (k : κ) (a : α) :
    IsProper (add r k a) := by
  intro j s hs
  unfold Relation.add at hs
  rw [SortedMap.find?_insert] at hs
  split at hs
  next =>
      cases hs
      intro hempty
      have hmem : a ∈ (image r k).insert a := SortedSet.mem_insert.mpr (.inl rfl)
      rw [hempty] at hmem
      exact SortedSet.not_mem_empty a hmem
  next => exact h j s hs

theorem IsProper.ext {r r' : Relation κ α} (h : IsProper r) (h' : IsProper r')
    (himage : ∀ k a, a ∈ image r k ↔ a ∈ image r' k) : r = r' := by
  refine SortedMap.ext fun k => Option.ext fun s => ?_
  rw [h.find?_eq_some_iff, h'.find?_eq_some_iff, SortedSet.ext (himage k)]

theorem add_of_mem_image [DecidableEq κ] {r : Relation κ α} {k : κ} {a : α}
    (h : a ∈ image r k) : add r k a = r := by
  refine SortedMap.ext fun j => ?_
  unfold add
  rw [SortedMap.find?_insert, SortedSet.insert_of_mem h]
  split
  next hj => rw [hj, find?_of_mem_image h]
  next => rfl

end Relation

end ApiGuard
