/-
  ApiGuard.Order.SortedMap
  ────────────────────────
  Finite maps kept as entries with strictly increasing keys.

      find?_insert  :  (m.insert k v).find? j = if j = k then some v else m.find? j
      ext           :  (∀ k, m.find? k = n.find? k)  →  m = n
-/
import ApiGuard.Order.SortedSet

namespace ApiGuard

open Std

universe u v

/-- A finite map: its entries, in increasing order of their keys. -/
structure SortedMap (κ : Type u) (ν : Type v) [Ord κ] where
  /-- The entries, in increasing order of their keys. -/
  toList : List (κ × ν)
  /-- Each key is below all those after it. -/
  increasing : toList.Pairwise (fun a b => compare a.1 b.1 = .lt)

namespace SortedMap

variable {κ : Type u} {ν : Type v} [Ord κ]

/-! ## §1. Construction and queries. -/

/-- The map without entries. -/
def empty : SortedMap κ ν := ⟨[], .nil⟩

instance : EmptyCollection (SortedMap κ ν) := ⟨empty⟩

instance : Inhabited (SortedMap κ ν) := ⟨empty⟩

/-- The keys, in increasing order. -/
def keys (m : SortedMap κ ν) : List κ := m.toList.map (·.1)

/-- The values, in increasing order of their keys. -/
def values (m : SortedMap κ ν) : List ν := m.toList.map (·.2)

/-- The number of entries. -/
def size (m : SortedMap κ ν) : Nat := m.toList.length

/-- The value of the first entry with key `k`. -/
def findIn (k : κ) : List (κ × ν) → Option ν
  | [] => none
  | (j, v) :: rest => if compare k j == .eq then some v else findIn k rest

/-- The value at key `k`. -/
def find? (m : SortedMap κ ν) (k : κ) : Option ν := findIn k m.toList

/-- The value at key `k`, or `d` if there is none. -/
def findD (m : SortedMap κ ν) (k : κ) (d : ν) : ν := (m.find? k).getD d

/-- Is there an entry with key `k`? -/
def contains (m : SortedMap κ ν) (k : κ) : Bool := (m.find? k).isSome

/-- Put the entry `(k, v)` at its place, instead of one with the same key. -/
def place (k : κ) (v : ν) : List (κ × ν) → List (κ × ν)
  | [] => [(k, v)]
  | (j, w) :: rest =>
    match compare k j with
    | .lt => (k, v) :: (j, w) :: rest
    | .eq => (k, v) :: rest
    | .gt => (j, w) :: place k v rest

theorem eq_of_toList_eq {m n : SortedMap κ ν} (h : m.toList = n.toList) : m = n := by
  cases m; cases n; cases h; rfl

@[simp] theorem find?_empty (k : κ) : (∅ : SortedMap κ ν).find? k = none := rfl

@[simp] theorem toList_empty : (∅ : SortedMap κ ν).toList = [] := rfl

/-! ## §2. Insertion. -/

theorem mem_place {k : κ} {v : ν} {e : κ × ν} :
    ∀ {l : List (κ × ν)}, e ∈ place k v l → e = (k, v) ∨ e ∈ l
  | [], h => by simpa [place] using h
  | (j, w) :: rest, h => by
    rw [place] at h
    split at h
    next => simpa using h
    next => grind
    next =>
      rcases List.mem_cons.mp h with h | h
      · exact .inr (h ▸ List.mem_cons_self)
      · exact (mem_place h).imp id (List.mem_cons_of_mem _)

variable [TransOrd κ] [LawfulEqOrd κ]

/-- To place an entry keeps the order of the keys, each of which stays alone. -/
theorem pairwise_place {k : κ} {v : ν} :
    ∀ {l : List (κ × ν)}, l.Pairwise (fun a b => compare a.1 b.1 = .lt) →
      (place k v l).Pairwise (fun a b => compare a.1 b.1 = .lt)
  | [], _ => by simp [place]
  | (j, w) :: rest, h => by
    rw [place]
    split
    next hkj =>
      refine h.cons fun e he => ?_
      rcases List.mem_cons.mp he with rfl | he
      · exact hkj
      · exact TransCmp.lt_trans hkj (List.rel_of_pairwise_cons h he)
    next hkj =>
      have := LawfulEqOrd.eq_of_compare hkj
      subst this
      exact h.of_cons.cons fun e he => List.rel_of_pairwise_cons h he
    next hkj =>
      refine (pairwise_place h.of_cons).cons fun e he => ?_
      rcases mem_place he with rfl | he
      · exact OrientedCmp.lt_of_gt hkj
      · exact List.rel_of_pairwise_cons h he

/-- Set the value at `k` to `v`. -/
def insert (m : SortedMap κ ν) (k : κ) (v : ν) : SortedMap κ ν where
  toList := place k v m.toList
  increasing := pairwise_place m.increasing

omit [TransOrd κ] in
/-- What is found after an entry is placed: the new value of its key, and the old ones of all
others. -/
theorem findIn_place {j k : κ} {v : ν} [DecidableEq κ] :
    ∀ {l : List (κ × ν)}, findIn j (place k v l) = if j = k then some v else findIn j l
  | [] => by simp [place, findIn]
  | (i, w) :: rest => by
    rw [place]
    split
    next => simp [findIn]
    next h =>
      have := LawfulEqOrd.eq_of_compare h
      subst this
      by_cases hj : j = k <;> simp [findIn, hj]
    next h =>
      have hki : k ≠ i := fun he => by rw [he, ReflOrd.compare_self] at h; cases h
      by_cases hji : j = i
      · subst hji
        simp [findIn, Ne.symm hki]
      · simp only [findIn, beq_iff_eq, LawfulEqOrd.compare_eq_iff_eq, hji, if_false]
        exact findIn_place

@[simp] theorem find?_insert [DecidableEq κ] {m : SortedMap κ ν} {j k : κ} {v : ν} :
    (m.insert k v).find? j = if j = k then some v else m.find? j := findIn_place

omit [TransOrd κ] in
theorem findIn_isSome {k : κ} :
    ∀ {l : List (κ × ν)}, (findIn k l).isSome = true ↔ k ∈ l.map (·.1)
  | [] => by simp [findIn]
  | (j, w) :: rest => by
    rw [findIn]
    split
    next h =>
      have := LawfulEqOrd.eq_of_compare (eq_of_beq h)
      simp [this]
    next h =>
      rw [findIn_isSome, List.map_cons, List.mem_cons]
      simp only [beq_iff_eq, LawfulEqOrd.compare_eq_iff_eq] at h
      simp [h]

omit [TransOrd κ] in
/-- The keys are those at which there is a value. -/
theorem mem_keys_iff {m : SortedMap κ ν} {k : κ} : k ∈ m.keys ↔ m.contains k = true :=
  findIn_isSome.symm

omit [TransOrd κ] in
/-- In order of the keys the first entry found is the only one with its key. -/
theorem findIn_eq_some_iff {k : κ} {v : ν} :
    ∀ {l : List (κ × ν)}, l.Pairwise (fun a b => compare a.1 b.1 = .lt) →
      (findIn k l = some v ↔ (k, v) ∈ l)
  | [], _ => by simp [findIn]
  | (j, w) :: rest, h => by
    rw [findIn]
    split
    next hkj =>
      have := LawfulEqOrd.eq_of_compare (eq_of_beq hkj)
      subst this
      have hnot : (k, v) ∉ rest := fun hm => by
        have := List.rel_of_pairwise_cons h hm
        rw [ReflOrd.compare_self] at this
        cases this
      simp [hnot, eq_comm]
    next hkj =>
      rw [findIn_eq_some_iff h.of_cons]
      simp only [beq_iff_eq, LawfulEqOrd.compare_eq_iff_eq] at hkj
      simp [hkj]

omit [TransOrd κ] in
/-- The entries are the keys with their values. -/
theorem mem_toList_iff {m : SortedMap κ ν} {k : κ} {v : ν} :
    (k, v) ∈ m.toList ↔ m.find? k = some v :=
  (findIn_eq_some_iff m.increasing).symm

omit [TransOrd κ] in
theorem nodup_keys (m : SortedMap κ ν) : m.keys.Nodup := by
  unfold keys
  rw [List.Nodup, List.pairwise_map]
  refine m.increasing.imp fun hlt heq => ?_
  rw [heq, ReflOrd.compare_self] at hlt
  cases hlt

/-! ## §3. Extensionality. -/

/-- Maps with the same value at every key are equal. -/
theorem ext {m n : SortedMap κ ν} (h : ∀ k, m.find? k = n.find? k) : m = n := by
  have hmem : ∀ e, e ∈ m.toList ↔ e ∈ n.toList := fun (k, v) => by
    rw [mem_toList_iff, mem_toList_iff, h]
  have asymm : ∀ a b : κ × ν, compare a.1 b.1 = .lt → compare b.1 a.1 = .lt → False :=
    fun a b hab hba => by
      have := TransCmp.lt_trans hab hba
      rw [ReflOrd.compare_self] at this
      cases this
  have nodup : ∀ k : SortedMap κ ν, k.toList.Nodup := fun k =>
    k.increasing.imp fun hab he => by
      rw [he, ReflOrd.compare_self] at hab
      cases hab
  exact eq_of_toList_eq <| List.Perm.eq_of_pairwise
    (fun a b _ _ hab hba => (asymm a b hab hba).elim) m.increasing n.increasing
    ((List.perm_ext_iff_of_nodup (nodup m) (nodup n)).mpr hmem)

end SortedMap

end ApiGuard
