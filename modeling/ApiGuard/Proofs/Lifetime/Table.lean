/-
  ApiGuard.Proofs.Lifetime.Table
  ──────────────────────────────
  A table of lifetimes as a map.

  A table is asked and changed by canonical spellings only, so it does not tell spellings of
  one signature apart.  An insertion changes what is found for the spellings of its signature
  and nothing else:

      canonical_eq_canonical_iff   spellings of one signature
      lookup_insert                what an insertion changes
      mem_toList_iff               the listed lifetimes are those that are found
-/
import ApiGuard.Lifetime.Table
import ApiGuard.Proofs.Signature.Classes
import Mathlib.Data.List.Forall2

namespace ApiGuard

open Signature

/-! ## §1. Levels and bounds. -/

theorem ApiLevel.known?_eq_some_iff {level : ApiLevel} {n : Nat} :
    level.known? = some n ↔ level = .known n := by
  cases level <;> simp [known?]

theorem ApiLevel.known?_eq_none_iff {level : ApiLevel} :
    level.known? = none ↔ level = .unknown := by
  cases level <;> simp [known?]

theorem Lifetime.bounds?_eq_some_iff {life : Lifetime} {first last : Nat} :
    life.bounds? = some (first, last) ↔ life.min = .known first ∧ life.max = .known last := by
  unfold bounds?
  rw [← ApiLevel.known?_eq_some_iff, ← ApiLevel.known?_eq_some_iff]
  cases life.min.known? <;> cases life.max.known? <;> simp

theorem Lifetime.bounds?_eq_none_iff {life : Lifetime} :
    life.bounds? = none ↔ life.min = .unknown ∨ life.max = .unknown := by
  unfold bounds?
  rw [← ApiLevel.known?_eq_none_iff, ← ApiLevel.known?_eq_none_iff]
  cases life.min.known? <;> cases life.max.known? <;> simp

/-! ## §2. Spellings. -/

namespace Signature

/-- The texts differ at most in that one has a dot where the other has a dollar sign. -/
def AreSpellings (s t : String) : Prop :=
  List.Forall₂ (fun a b => a = b ∨ (a ∈ ['$', '.'] ∧ b ∈ ['$', '.'])) s.toList t.toList

/-- The texts with one canonical spelling are those that differ in nothing else. -/
theorem canonical_eq_canonical_iff {s t : String} :
    canonical s = canonical t ↔ AreSpellings s t := by
  have hmark : ∀ a b : Char, ((if a = '$' then '.' else a) = if b = '$' then '.' else b)
      ↔ a = b ∨ (a ∈ ['$', '.'] ∧ b ∈ ['$', '.']) := by
    intro a b
    by_cases ha : a = '$' <;> by_cases hb : b = '$' <;> simp [ha, hb] <;> grind
  unfold AreSpellings
  rw [← String.toList_inj, toList_canonical, toList_canonical, ← List.forall₂_eq_eq_eq,
    List.forall₂_map_left_iff, List.forall₂_map_right_iff]
  simp only [hmark]

end Signature

/-! ## §3. Queries. -/

namespace LifetimeTable

variable {table : LifetimeTable} {api s t key : String} {min max : ApiLevel} {life : Lifetime}

theorem signature_lookup (table : LifetimeTable) (api : String) :
    (table.lookup api).signature = canonical api := by
  unfold lookup
  cases table.entries.find? (canonical api) <;> rfl

theorem contains_iff : table.contains api = true ↔ canonical api ∈ table.entries.keys :=
  SortedMap.mem_keys_iff.symm

/-- The table does not tell a signature from its canonical spelling. -/
theorem contains_canonical (table : LifetimeTable) (text : String) :
    table.contains (canonical text) = table.contains text := by
  unfold contains
  rw [canonical_canonical]

theorem lookup_congr (h : canonical s = canonical t) : table.lookup s = table.lookup t := by
  unfold lookup
  rw [h]

theorem contains_congr (h : canonical s = canonical t) : table.contains s = table.contains t := by
  unfold contains
  rw [h]

theorem insert_congr (h : canonical s = canonical t) (min max : ApiLevel) :
    table.insert s min max = table.insert t min max := by
  unfold insert
  rw [h]

theorem mem_toList_iff :
    life ∈ table.toList ↔ table.entries.find? life.signature = some (life.min, life.max) := by
  rw [← SortedMap.mem_toList_iff]
  unfold toList
  rw [List.mem_map]
  constructor
  · rintro ⟨⟨key, min, max⟩, hentry, rfl⟩
    exact hentry
  · exact fun hentry => ⟨_, hentry, rfl⟩

/-- What is found for a signature of the table is listed. -/
theorem lookup_mem_toList (h : table.contains s = true) : table.lookup s ∈ table.toList := by
  obtain ⟨⟨min, max⟩, hfind⟩ := Option.isSome_iff_exists.mp h
  rw [mem_toList_iff, signature_lookup, hfind]
  unfold lookup
  rw [hfind]

/-- What is listed is found for the spellings of its signature. -/
theorem lookup_of_mem_toList (hlife : life ∈ table.toList) (hs : canonical s = life.signature) :
    table.contains s = true ∧ table.lookup s = life := by
  have hfind := mem_toList_iff.mp hlife
  rw [← hs] at hfind
  unfold contains SortedMap.contains lookup
  rw [hfind, hs]
  exact ⟨rfl, rfl⟩

theorem map_signature_toList (table : LifetimeTable) :
    table.toList.map Lifetime.signature = table.entries.keys := by
  unfold toList SortedMap.keys
  rw [List.map_map]
  rfl

/-- The listed lifetimes come in the order of their signatures. -/
theorem pairwise_toList (table : LifetimeTable) :
    table.toList.Pairwise fun life life' => life.signature < life'.signature := by
  unfold toList
  rw [List.pairwise_map]
  exact table.entries.increasing.imp fun hlt => compareOfLessAndEq_eq_lt.mp hlt

/-! ## §4. Insertion. -/

/-- An insertion changes what is found for the spellings of its signature. -/
theorem lookup_insert :
    (table.insert s min max).lookup t
      = if canonical t = canonical s then ⟨canonical t, min, max⟩ else table.lookup t := by
  unfold lookup insert
  rw [SortedMap.find?_insert]
  by_cases heq : canonical t = canonical s
  · rw [if_pos heq, if_pos heq]
  · rw [if_neg heq, if_neg heq]

theorem mem_keys_insert :
    key ∈ (table.insert s min max).entries.keys
      ↔ key ∈ table.entries.keys ∨ key = canonical s := by
  unfold insert
  rw [SortedMap.mem_keys_iff, SortedMap.mem_keys_iff]
  unfold SortedMap.contains
  rw [SortedMap.find?_insert]
  split
  next heq => exact iff_of_true rfl (.inr heq)
  next hne => exact (or_iff_left hne).symm

end LifetimeTable

end ApiGuard
