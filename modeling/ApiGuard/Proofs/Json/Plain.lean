/-
  ApiGuard.Proofs.Json.Plain
  ──────────────────────────
  Values that are read back as they were written, and that can be held.

  All that a value needs for this is that it denotes something throughout and that its
  numbers are integers that a word holds:

      IsPlain            what such a value is, with the levels that it nests
      parse?_compact     reading undoes writing
      IsPlain.isHeld     there is room for it
-/
import ApiGuard.Proofs.Json.Reading

namespace ApiGuard

open Text

namespace Json

/-! ## §1. Texts of plain values. -/

/-- A value that denotes something throughout, whose numbers are integers of a word, and that
nests the given number of levels at most. -/
inductive IsPlain : Nat → Json → Prop
  | null {depth : Nat} : IsPlain depth .null
  | bool {depth : Nat} {b : Bool} : IsPlain depth (.bool b)
  | ofInt {depth : Nat} {i : Int} : i.natAbs < Decimal.wordLimit → IsPlain depth (.ofInt i)
  | string {depth : Nat} {text : String} : IsPlain depth (.string text)
  | array {depth : Nat} {items : List Json} :
      (∀ j ∈ items, IsPlain depth j) → IsPlain (depth + 1) (.array items)
  | object {depth : Nat} {members : List (String × Json)} :
      (∀ member ∈ members, IsPlain depth member.2) → IsPlain (depth + 1) (.object members)

variable {j : Json} {depth : Nat}

theorem compactItems_eq_map (items : List Json) : compactItems items = items.map compact := by
  induction items with
  | nil => rfl
  | cons j items ih => rw [compactItems, ih, List.map_cons]

theorem compactMembers_eq_map (members : List (String × Json)) :
    compactMembers members
      = members.map fun (name, j) => quote name ++ ":" ++ compact j := by
  induction members with
  | nil => rfl
  | cons member members ih => rw [compactMembers, ih, List.map_cons]

theorem toList_compact_array (items : List Json) :
    (Json.array items).compact.toList
      = '[' :: ([','].intercalate (items.map fun j => j.compact.toList) ++ [']']) := by
  rw [compact, compactItems_eq_map, String.toList_append, String.toList_append,
    String.toList_intercalate, List.map_map]
  rfl

theorem toList_compact_object (members : List (String × Json)) :
    (Json.object members).compact.toList
      = '{' :: ([','].intercalate (members.map fun (name, j) =>
          '"' :: (name.toList.flatMap escape ++ '"' :: ':' :: j.compact.toList)) ++ ['}']) := by
  have hmember : (String.toList ∘ fun (member : String × Json) =>
      quote member.1 ++ ":" ++ member.2.compact)
      = fun member => '"' :: (member.1.toList.flatMap escape
          ++ '"' :: ':' :: member.2.compact.toList) := by
    funext member
    simp [toList_quote]
  rw [compact, compactMembers_eq_map, String.toList_append, String.toList_append,
    String.toList_intercalate, List.map_map]
  exact congrArg (fun f => '{' :: ([','].intercalate (members.map f) ++ ['}'])) hmember

/-- A plain value is read back from its text. -/
theorem IsPlain.isTextOf (h : IsPlain depth j) : IsTextOf j.compact.toList j := by
  induction h with
  | null => exact isTextOf_null
  | @bool _ b => exact isTextOf_bool b
  | ofInt hi => exact isTextOf_ofInt hi
  | @string _ text =>
      rw [compact, toList_quote]
      exact isTextOf_quote text
  | array _ ih =>
      rw [toList_compact_array]
      exact isTextOf_array (List.forall₂_map_left_iff.mpr (List.forall₂_same.mpr ih))
  | object _ ih =>
      rw [toList_compact_object]
      exact isTextOf_object (List.forall₂_map_left_iff.mpr
        (List.forall₂_same.mpr fun member hmember => ⟨_, ih member hmember, rfl⟩))

/-- Reading undoes writing. -/
theorem parse?_compact (h : IsPlain depth j) : parse? j.compact = some j := by
  have hscan := h.isTextOf.reads [] (2 * j.compact.toList.length + 2) stops_nil (by omega)
  rw [List.append_nil] at hscan
  show ((scanValue (2 * j.compact.toList.length + 2) j.compact.toList).bind _) = _
  rw [hscan]
  rfl

/-! ## §2. Room for plain values. -/

theorem isHeldList_eq_all (depth : Nat) (items : List Json) :
    isHeldList depth items = items.all (isHeld depth) := by
  induction items with
  | nil => rfl
  | cons j items ih => rw [isHeldList, ih, List.all_cons]

theorem isHeldMembers_eq_all (depth : Nat) (members : List (String × Json)) :
    isHeldMembers depth members = members.all fun (_, j) => isHeld depth j := by
  induction members with
  | nil => rfl
  | cons member members ih => rw [isHeldMembers, ih, List.all_cons]

end Json

namespace JsonNumber

/-- Rounding at most doubles a number: the unit it is rounded to is no greater. -/
theorem roundDouble_le {n : Nat} (hn : n ≠ 0) : roundDouble n ≤ 2 * n := by
  have hunit : Nat.pow 2 (n.log2 + 1 - 53) ≤ n :=
    (Nat.pow_le_pow_right (by decide) (by omega)).trans (Nat.log2_self_le hn)
  have hround : roundDouble n
      ≤ (n / Nat.pow 2 (n.log2 + 1 - 53) + 1) * Nat.pow 2 (n.log2 + 1 - 53) := by
    simp only [roundDouble]
    split
    · exact Nat.le_refl _
    · exact Nat.mul_le_mul_right _ (Nat.le_succ _)
  have hwhole := Nat.div_mul_le_self n (Nat.pow 2 (n.log2 + 1 - 53))
  rw [Nat.add_mul, Nat.one_mul] at hround
  omega

theorem isFinite_ofInt {i : Int} (hi : i.natAbs < Decimal.wordLimit) :
    (ofInt i).isFinite = true := by
  by_cases hzero : i.natAbs = 0
  · simp [isFinite, ofInt, hzero]
  · have hround := roundDouble_le hzero
    -- an integer has the exponent zero, and a word is far below the limit
    have hone : roundDouble (Nat.pow 10 (0 : Int).toNat) = 1 := by decide
    have hlimit : 2 * Decimal.wordLimit < doubleLimit := by decide +kernel
    have hrange : roundDouble i.natAbs * roundDouble (Nat.pow 10 (0 : Int).toNat) < doubleLimit := by
      rw [hone]
      omega
    simp only [isFinite, ofInt, Bool.or_eq_true, Bool.and_eq_true]
    exact .inr ⟨rfl, decide_eq_true hrange⟩

end JsonNumber

namespace Json

variable {j : Json} {depth : Nat}

/-- There is room for a plain value where there is room for its levels. -/
theorem IsPlain.isHeld (h : IsPlain depth j) :
    ∀ {depth' : Nat}, depth ≤ depth' → j.isHeld depth' = true := by
  induction h with
  | null => intros; rfl
  | bool => intros; rfl
  | string => intros; rfl
  | ofInt hi =>
      intro depth' _
      exact JsonNumber.isFinite_ofInt hi
  | array _ ih =>
      intro depth' hdepth
      rw [Json.isHeld, isHeldList_eq_all, Bool.and_eq_true, List.all_eq_true]
      exact ⟨decide_eq_true (by omega), fun j hj => ih j hj (by omega)⟩
  | object _ ih =>
      intro depth' hdepth
      rw [Json.isHeld, isHeldMembers_eq_all, Bool.and_eq_true, List.all_eq_true]
      exact ⟨decide_eq_true (by omega), fun member hmember => ih member hmember (by omega)⟩

end Json

end ApiGuard
