/-
  ApiGuard.Order.SortedSet
  ────────────────────────
  Finite sets kept as strictly increasing lists.

  A set is the list of its elements in increasing order, so two sets with
  the same elements are equal (`SortedSet.ext`), and going through a set is
  going through its list.  Sets are ordered lexicographically by their
  lists, hence sets of sets are sets again.

      mem_insert  :  a ∈ s.insert b  ↔  a = b ∨ a ∈ s
      ext         :  (∀ a, a ∈ s ↔ a ∈ t)  →  s = t
-/

namespace ApiGuard

open Std

universe u

/-- A finite set: the strictly increasing list of its elements. -/
structure SortedSet (α : Type u) [Ord α] where
  /-- The elements, in increasing order. -/
  toList : List α
  /-- Each element is below all those after it. -/
  increasing : toList.Pairwise (fun a b => compare a b = .lt)

namespace SortedSet

variable {α : Type u} [Ord α]

/-! ## §1. Construction and queries. -/

/-- The set without elements. -/
def empty : SortedSet α := ⟨[], .nil⟩

instance : EmptyCollection (SortedSet α) := ⟨empty⟩

instance : Inhabited (SortedSet α) := ⟨empty⟩

instance : Membership α (SortedSet α) := ⟨fun s a => a ∈ s.toList⟩

instance [DecidableEq α] : DecidableEq (SortedSet α) := fun s t =>
  decidable_of_iff (s.toList = t.toList) (by cases s; cases t; simp)

/-- Put `a` at its place in an increasing list that may already hold it. -/
def place (a : α) : List α → List α
  | [] => [a]
  | b :: bs =>
    match compare a b with
    | .lt => a :: b :: bs
    | .eq => b :: bs
    | .gt => b :: place a bs

/-- Is `a` an element? -/
def contains (s : SortedSet α) (a : α) : Bool :=
  s.toList.any (fun b => compare a b == .eq)

/-- Does the set have no element? -/
def isEmpty (s : SortedSet α) : Bool := s.toList.isEmpty

/-- The number of elements. -/
def size (s : SortedSet α) : Nat := s.toList.length

/-- Remove `a`. -/
def erase (s : SortedSet α) (a : α) : SortedSet α where
  toList := s.toList.filter (fun b => compare a b != .eq)
  increasing := s.increasing.filter _

theorem mem_def {s : SortedSet α} {a : α} : a ∈ s ↔ a ∈ s.toList := Iff.rfl

@[simp] theorem not_mem_empty (a : α) : ¬ a ∈ (∅ : SortedSet α) := List.not_mem_nil

@[simp] theorem toList_empty : (∅ : SortedSet α).toList = [] := rfl

theorem eq_of_toList_eq {s t : SortedSet α} (h : s.toList = t.toList) : s = t := by
  cases s; cases t; cases h; rfl

theorem isEmpty_iff {s : SortedSet α} : s.isEmpty = true ↔ s = ∅ := by
  rw [isEmpty, List.isEmpty_iff]
  exact ⟨fun h => eq_of_toList_eq h, fun h => by rw [h]; rfl⟩

theorem exists_mem_of_ne_empty {s : SortedSet α} (h : s ≠ ∅) : ∃ a, a ∈ s :=
  List.exists_mem_of_ne_nil _ fun hnil => h (eq_of_toList_eq hnil)

/-! ## §2. Insertion. -/

theorem mem_place [LawfulEqOrd α] {a b : α} :
    ∀ {l : List α}, a ∈ place b l ↔ a = b ∨ a ∈ l
  | [] => by simp [place]
  | c :: cs => by
    rw [place]
    split
    next => simp
    next h =>
      have := LawfulEqOrd.eq_of_compare h
      subst this
      simp
    next => simp only [List.mem_cons, mem_place (l := cs)]; grind

/-- To place an element keeps the order, and no element stands twice. -/
theorem pairwise_place [TransOrd α] [LawfulEqOrd α] {a : α} :
    ∀ {l : List α}, l.Pairwise (fun a b => compare a b = .lt) →
      (place a l).Pairwise (fun a b => compare a b = .lt)
  | [], _ => by simp [place]
  | b :: bs, h => by
    rw [place]
    split
    next hab =>
      refine h.cons fun c hc => ?_
      rcases List.mem_cons.mp hc with rfl | hc
      · exact hab
      · exact TransCmp.lt_trans hab (List.rel_of_pairwise_cons h hc)
    next => exact h
    next hab =>
      refine (pairwise_place h.of_cons).cons fun c hc => ?_
      rcases mem_place.mp hc with rfl | hc
      · exact OrientedCmp.lt_of_gt hab
      · exact List.rel_of_pairwise_cons h hc

variable [TransOrd α] [LawfulEqOrd α]

/-- Add `a`; an element that is already there stays. -/
def insert (s : SortedSet α) (a : α) : SortedSet α where
  toList := place a s.toList
  increasing := pairwise_place s.increasing

/-- Add each element of a list, from the left. -/
def insertMany (s : SortedSet α) (l : List α) : SortedSet α := l.foldl insert s

/-- The set of the elements of a list. -/
def ofList (l : List α) : SortedSet α := insertMany ∅ l

/-- The elements of either set. -/
def union (s t : SortedSet α) : SortedSet α := s.insertMany t.toList

@[simp] theorem mem_insert {s : SortedSet α} {a b : α} :
    a ∈ s.insert b ↔ a = b ∨ a ∈ s := mem_place

@[simp] theorem mem_insertMany {l : List α} :
    ∀ {s : SortedSet α} {a : α}, a ∈ s.insertMany l ↔ a ∈ l ∨ a ∈ s := by
  induction l with
  | nil => simp [insertMany]
  | cons b bs ih =>
    intro s a
    have := ih (s := s.insert b) (a := a)
    simp only [insertMany, List.foldl_cons] at this ⊢
    rw [this, mem_insert, List.mem_cons]
    grind

@[simp] theorem mem_ofList {l : List α} {a : α} : a ∈ ofList l ↔ a ∈ l := by
  simp [ofList]

@[simp] theorem mem_union {s t : SortedSet α} {a : α} : a ∈ s.union t ↔ a ∈ s ∨ a ∈ t := by
  rw [union, mem_insertMany, or_comm, mem_def (s := t)]

omit [TransOrd α] in
@[simp] theorem mem_erase {s : SortedSet α} {a b : α} :
    a ∈ s.erase b ↔ a ≠ b ∧ a ∈ s := by
  show a ∈ (s.toList.filter _) ↔ _
  rw [List.mem_filter, mem_def, and_comm]
  simp only [bne_iff_ne, ne_eq, LawfulEqOrd.compare_eq_iff_eq]
  grind

omit [TransOrd α] in
/-- Removing an element makes the set smaller. -/
theorem size_erase_lt {s : SortedSet α} {a : α} (h : a ∈ s) : (s.erase a).size < s.size :=
  List.length_filter_lt_length_iff_exists.mpr ⟨a, h, by simp⟩

omit [TransOrd α] in
@[simp] theorem contains_iff {s : SortedSet α} {a : α} : s.contains a = true ↔ a ∈ s := by
  simp [contains, mem_def]

instance (a : α) (s : SortedSet α) : Decidable (a ∈ s) :=
  decidable_of_iff _ contains_iff

/-! ## §3. Extensionality and order. -/

/-- Lists in strict order with the same elements are the same. -/
theorem eq_of_mem_iff {l m : List α} (hl : l.Pairwise (fun a b => compare a b = .lt))
    (hm : m.Pairwise (fun a b => compare a b = .lt)) (h : ∀ a, a ∈ l ↔ a ∈ m) : l = m := by
  induction l generalizing m with
  | nil =>
    cases m with
    | nil => rfl
    | cons b bs => exact absurd ((h b).mpr List.mem_cons_self) List.not_mem_nil
  | cons a as ih =>
    cases m with
    | nil => exact absurd ((h a).mp List.mem_cons_self) List.not_mem_nil
    | cons b bs =>
      have irrefl : ∀ c : α, compare c c ≠ .lt := fun c hc => by
        rw [ReflOrd.compare_self] at hc; cases hc
      have hab : a = b := by
        rcases List.mem_cons.mp ((h a).mp List.mem_cons_self) with hab | hab
        · exact hab
        rcases List.mem_cons.mp ((h b).mpr List.mem_cons_self) with hba | hba
        · exact hba.symm
        exact absurd (TransCmp.lt_trans (List.rel_of_pairwise_cons hl hba)
          (List.rel_of_pairwise_cons hm hab)) (irrefl a)
      subst hab
      rw [ih hl.of_cons hm.of_cons fun c => ?_]
      constructor
      · intro hc
        rcases List.mem_cons.mp ((h c).mp (List.mem_cons_of_mem _ hc)) with rfl | hc'
        · exact absurd (List.rel_of_pairwise_cons hl hc) (irrefl c)
        · exact hc'
      · intro hc
        rcases List.mem_cons.mp ((h c).mpr (List.mem_cons_of_mem _ hc)) with rfl | hc'
        · exact absurd (List.rel_of_pairwise_cons hm hc) (irrefl c)
        · exact hc'

/-- Sets with the same elements are equal. -/
theorem ext {s t : SortedSet α} (h : ∀ a, a ∈ s ↔ a ∈ t) : s = t :=
  eq_of_toList_eq (eq_of_mem_iff s.increasing t.increasing h)

/-- To add an element that is there changes nothing. -/
theorem insert_of_mem {s : SortedSet α} {a : α} (h : a ∈ s) : s.insert a = s :=
  ext fun b => by
    rw [mem_insert]
    exact ⟨fun hb => hb.elim (fun he => he ▸ h) id, .inr⟩

omit [TransOrd α] [LawfulEqOrd α] in
theorem nodup_toList [ReflOrd α] (s : SortedSet α) : s.toList.Nodup :=
  s.increasing.imp fun hab he => by
    rw [he, ReflOrd.compare_self] at hab
    cases hab

omit [TransOrd α] [LawfulEqOrd α] in
instance : Ord (SortedSet α) := ⟨fun s t => compare s.toList t.toList⟩

instance : TransOrd (SortedSet α) where
  eq_swap := OrientedOrd.eq_swap (α := List α)
  isLE_trans := TransOrd.isLE_trans (α := List α)

instance : LawfulEqOrd (SortedSet α) where
  compare_self := ReflOrd.compare_self (α := List α)
  eq_of_compare h := eq_of_toList_eq (LawfulEqOrd.eq_of_compare (α := List α) h)

end SortedSet

end ApiGuard
