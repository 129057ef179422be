/-
  ApiGuard.Proofs.Text.Utf8
  ─────────────────────────
  Texts are in the order of their bytes.

  Texts are compared character by character, and characters by their numbers.  In UTF-8 a
  number is cut into digits of six bits, the highest first, and the first byte tells by its
  size how many of them follow.  So of two characters the smaller one has the smaller
  encoding, whatever comes after it, and one may as well compare bytes:

      digits_append_lt    with as many digits the smaller number comes first
      encoding_append_lt  the smaller character comes first
      compare_eq_lt_iff   compare s t = .lt  ↔  bytes s < bytes t
-/
import Mathlib.Algebra.Group.Nat.Defs
import Mathlib.Data.Char
import Mathlib.Data.List.Lex

namespace ApiGuard.Text.Utf8

/-! ## §1. Digits. -/

/-- The number in base 64 with `k` digits after the first byte, the lowest one last; the first
byte has what is left of the number, and a mark. -/
def digits (mark : Nat) : Nat → Nat → List UInt8
  | 0, v => [UInt8.ofNat (v + mark)]
  | k + 1, v => digits mark k (v / 64) ++ [UInt8.ofNat (v % 64 + 128)]

theorem ofNat_cons_lt_iff {a b : Nat} (ha : a < 256) (hb : b < 256) {l m : List UInt8} :
    UInt8.ofNat a :: l < UInt8.ofNat b :: m ↔ a < b ∨ (a = b ∧ l < m) := by
  have heq : UInt8.ofNat a = UInt8.ofNat b ↔ a = b := by
    rw [← UInt8.toNat_inj, UInt8.toNat_ofNat_of_lt' ha, UInt8.toNat_ofNat_of_lt' hb]
  rw [List.cons_lt_cons_iff, UInt8.ofNat_lt_iff_lt ha hb, heq]

theorem append_lt_append_left (l : List UInt8) {m n : List UInt8} (h : m < n) :
    l ++ m < l ++ n :=
  List.lex_lt.mp (List.Lex.append_left _ (List.lex_lt.mpr h) l)

/-- Of two numbers with as many digits the smaller one comes first, whatever follows. -/
theorem digits_append_lt {mark k : Nat} (l m : List UInt8) :
    ∀ {v w : Nat}, v < w → w / 64 ^ k + mark < 256 →
      digits mark k v ++ l < digits mark k w ++ m := by
  induction k generalizing l m with
  | zero =>
      intro v w hlt hfit
      rw [Nat.pow_zero, Nat.div_one] at hfit
      exact (ofNat_cons_lt_iff (by omega) hfit).mpr (.inl (by omega))
  | succ k ih =>
      intro v w hlt hfit
      rw [Nat.pow_succ', ← Nat.div_div_eq_div_mul] at hfit
      unfold digits
      rw [List.append_assoc, List.append_assoc]
      -- the numbers differ above the lowest digit, or else there
      rcases Nat.lt_or_eq_of_le (Nat.div_le_div_right (c := 64) hlt.le) with habove | hsame
      · exact ih _ _ habove hfit
      · rw [hsame]
        refine append_lt_append_left _ ?_
        exact (ofNat_cons_lt_iff (by omega) (by omega)).mpr (.inl (by omega))

theorem exists_digits_eq_cons (mark k v : Nat) :
    ∃ rest, digits mark k v = UInt8.ofNat (v / 64 ^ k + mark) :: rest := by
  induction k generalizing v with
  | zero =>
      rw [Nat.pow_zero, Nat.div_one]
      exact ⟨[], rfl⟩
  | succ k ih =>
      obtain ⟨rest, hrest⟩ := ih (v / 64)
      refine ⟨rest ++ [UInt8.ofNat (v % 64 + 128)], ?_⟩
      unfold digits
      rw [hrest, Nat.pow_succ', ← Nat.div_div_eq_div_mul, List.cons_append]

/-! ## §2. Characters. -/

/-- How many digits follow the first byte of the encoding of a number. -/
def following (v : Nat) : Nat :=
  if v ≤ 0x7F then 0 else if v ≤ 0x7FF then 1 else if v ≤ 0xFFFF then 2 else 3

/-- The mark of a first byte, by how many digits follow. -/
def markOf : Nat → Nat
  | 0 => 0
  | 1 => 0xC0
  | 2 => 0xE0
  | _ => 0xF0

/-- The first byte of the encoding of a number. -/
def first (v : Nat) : Nat := v / 64 ^ following v + markOf (following v)

theorem toNat_lt (c : Char) : c.val.toNat < 0x110000 := by
  have hvalid := c.valid
  simp only [UInt32.isValidChar, Nat.isValidChar] at hvalid
  omega

/-- The bytes of a character are the digits of its number, with marks by how many follow the
first. -/
theorem encoding_eq_digits (c : Char) :
    String.utf8EncodeChar c
      = digits (markOf (following c.val.toNat)) (following c.val.toNat) c.val.toNat := by
  have hmax := toNat_lt c
  unfold String.utf8EncodeChar following
  generalize c.val.toNat = v at hmax
  dsimp only
  -- the first byte has room for what is left of the number
  split_ifs with hone htwo hthree
  · rfl
  · rw [Nat.mod_eq_of_lt (show v / 64 < 32 by omega)]
    rfl
  · rw [Nat.mod_eq_of_lt (show v / 4096 < 16 by omega)]
    simp only [digits, markOf, Nat.div_div_eq_div_mul]
    rfl
  · rw [Nat.mod_eq_of_lt (show v / 262144 < 8 by omega)]
    simp only [digits, markOf, Nat.div_div_eq_div_mul]
    rfl

theorem first_lt {v : Nat} (h : v < 0x110000) : first v < 256 := by
  unfold first following
  split_ifs <;> simp only [markOf] <;> omega

theorem following_le {v w : Nat} (h : v ≤ w) : following v ≤ following w := by
  unfold following
  split_ifs <;> omega

/-- If more digits follow, then the first byte is greater. -/
theorem first_lt_first {v w : Nat} (hw : w < 0x110000) (h : following v < following w) :
    first v < first w := by
  unfold first
  unfold following at h ⊢
  split_ifs at h ⊢ <;> simp only [markOf] <;> omega

/-- The smaller character comes first, whatever follows. -/
theorem encoding_append_lt {c d : Char} (h : c < d) (l m : List UInt8) :
    String.utf8EncodeChar c ++ l < String.utf8EncodeChar d ++ m := by
  have hlt : c.val.toNat < d.val.toNat := h
  rw [encoding_eq_digits, encoding_eq_digits]
  rcases Nat.lt_or_eq_of_le (following_le hlt.le) with hmore | hsame
  · obtain ⟨cs, hcs⟩ := exists_digits_eq_cons (markOf (following c.val.toNat))
      (following c.val.toNat) c.val.toNat
    obtain ⟨ds, hds⟩ := exists_digits_eq_cons (markOf (following d.val.toNat))
      (following d.val.toNat) d.val.toNat
    rw [hcs, hds, List.cons_append, List.cons_append]
    exact (ofNat_cons_lt_iff (first_lt (toNat_lt c)) (first_lt (toNat_lt d))).mpr
      (.inl (first_lt_first (toNat_lt d) hmore))
  · rw [hsame]
    exact digits_append_lt l m hlt (first_lt (toNat_lt d))

/-! ## §3. Texts. -/

/-- The bytes of a text. -/
def bytes (s : String) : List UInt8 := s.toUTF8.data.toList

theorem bytes_eq_flatMap (s : String) : bytes s = s.toList.flatMap String.utf8EncodeChar := by
  unfold bytes
  rw [String.toUTF8_eq_toByteArray, ← String.utf8Encode_toList]
  exact List.toList_data_toByteArray

/-- Of two lists of characters the smaller one has the smaller encoding. -/
theorem flatMap_lt {cs ds : List Char} (h : cs < ds) :
    cs.flatMap String.utf8EncodeChar < ds.flatMap String.utf8EncodeChar := by
  have h : List.Lex (· < ·) cs ds := List.lex_lt.mpr h
  induction h with
  | nil =>
      rw [List.flatMap_nil, List.flatMap_cons, encoding_eq_digits]
      obtain ⟨rest, hrest⟩ := exists_digits_eq_cons _ _ _
      rw [hrest]
      exact List.nil_lt_cons _ _
  | rel hlt =>
      rw [List.flatMap_cons, List.flatMap_cons]
      exact encoding_append_lt hlt _ _
  | cons _ ih =>
      rw [List.flatMap_cons, List.flatMap_cons]
      exact append_lt_append_left _ (ih ‹_›)

/-- Texts are compared as their bytes are. -/
theorem compare_eq_lt_iff {s t : String} : compare s t = .lt ↔ bytes s < bytes t := by
  have hlt : compare s t = .lt ↔ s.toList < t.toList :=
    compareOfLessAndEq_eq_lt.trans String.lt_iff
  rw [hlt, bytes_eq_flatMap, bytes_eq_flatMap]
  refine ⟨flatMap_lt, fun hbytes => ?_⟩
  rcases lt_trichotomy s.toList t.toList with hless | hequal | hgreater
  · exact hless
  · rw [hequal] at hbytes
    exact absurd hbytes (List.lt_irrefl _)
  · exact absurd (flatMap_lt hgreater) (List.lt_asymm hbytes)

/-- Units of sixteen bits would put these characters the other way round. -/
example : bytes "\uFFFD" < bytes "😀" := by decide +kernel

end ApiGuard.Text.Utf8
