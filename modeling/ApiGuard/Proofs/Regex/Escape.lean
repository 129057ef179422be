/-
  ApiGuard.Proofs.Regex.Escape
  ────────────────────────────
  Texts that stand for themselves.

  A backslash before each character with a meaning of its own takes that meaning away.  What
  is read from a text escaped in this way are its letters, their form is one literal, and the
  automaton has a state for each byte of it:

      parse?_escape, parse?_start      what is read from an escaped text, also after `^`
      form_letters, form_start         the forms of that
      fits_literal, fits_start         which of them have automata that are small enough
-/
import ApiGuard.Regex.Engine

namespace ApiGuard.Regex

/-! ## §1. Escaping. -/

/-- The characters that repeat what stands before them. -/
def repeatChars : List Char := ['*', '+', '?', '\x7b']

variable {c : Char} {text cs : List Char} {anyCase : Bool} {e : Regex} {fuel : Nat}

theorem escapeChars_cons (c : Char) (text : List Char) :
    escapeChars (c :: text) = escapeChar c ++ escapeChars text := List.flatMap_cons

theorem length_le_length_escapeChars (text : List Char) :
    text.length ≤ (escapeChars text).length := by
  induction text with
  | nil => exact Nat.le_refl 0
  | cons c text ih =>
      have hchar : 1 ≤ (escapeChar c).length := by
        rw [escapeChar]
        split <;> simp
      rw [escapeChars_cons, List.length_append, List.length_cons, Nat.add_comm]
      exact Nat.add_le_add hchar ih

theorem escaped?_of_mem_metaChars (hc : c ∈ metaChars) : escaped? c = some c := by
  have hall : metaChars.all (fun d => escaped? d = some d) = true := by decide
  exact of_decide_eq_true (List.all_eq_true.mp hall c hc)

/-- An escaped text never repeats what stands before it. -/
theorem head?_escapeChars_not_mem (hc : (escapeChars text).head? = some c) : c ∉ repeatChars := by
  cases text with
  | nil => cases hc
  | cons d text =>
      rw [escapeChars_cons, escapeChar] at hc
      split at hc
      · cases hc
        decide
      · -- a character that is written alone has no meaning of its own
        rename_i hd
        cases hc
        have hmeta : repeatChars ⊆ metaChars := by decide
        exact fun hmem => hd (hmeta hmem)

/-! ## §2. Reading. -/

theorem scanRepetitions_of_head (hcs : ∀ c, cs.head? = some c → c ∉ repeatChars) :
    scanRepetitions (fuel + 1) e cs = some (e, cs) := by
  have hne (d : Char) (rest : List Char) (hd : d ∈ repeatChars) : cs = d :: rest → False :=
    fun h => hcs d (h ▸ rfl) hd
  rw [scanRepetitions]
  all_goals exact fun rest => hne _ rest (by decide)

theorem scanMember_of_ne (hc : c ≠ '\\') : scanMember (c :: cs) = some (c, cs) := by
  rw [scanMember]
  · exact fun d rest h => absurd h hc
  · exact fun h => absurd h hc

/-- A character is read from what stands for it. -/
theorem scanItems_escapeChar : scanItems (fuel + 1) anyCase (escapeChar c ++ cs)
    = scanRest fuel (.letter c anyCase) anyCase cs := by
  rw [escapeChar]
  split
  · rename_i hc
    show scanItems (fuel + 1) anyCase ('\\' :: c :: cs) = _
    rw [scanItems, scanMember, escaped?_of_mem_metaChars hc]
    all_goals simp
  · rename_i hc
    have hne (d : Char) (rest : List Char) (hd : d ∈ metaChars) : c :: cs = d :: rest → False :=
      fun h => hc (List.head_eq_of_cons_eq h ▸ hd)
    show scanItems (fuel + 1) anyCase (c :: cs) = _
    rw [scanItems, scanMember_of_ne (by rintro rfl; exact hc (by decide))]
    · rfl
    · exact List.cons_ne_nil _ _
    -- the character is none of those that the other branches look for
    all_goals exact fun _ => hne _ _ (by decide)

theorem scanRest_of_head (hcs : ∀ c, cs.head? = some c → c ∉ repeatChars) :
    scanRest (fuel + 1) e anyCase cs
      = (scanItems fuel anyCase cs).map fun (items, anyCase, cs) => (e :: items, anyCase, cs) := by
  rw [scanRest, scanRepetitions_of_head hcs, Option.map_eq_bind]
  rfl

/-- What is read from an escaped text are its letters. -/
theorem scanItems_escapeChars (hfuel : 2 * text.length < fuel) :
    scanItems fuel anyCase (escapeChars text)
      = some (text.map (.letter · anyCase), anyCase, []) := by
  induction text generalizing fuel with
  | nil =>
      obtain ⟨fuel, rfl⟩ := Nat.exists_eq_succ_of_ne_zero (Nat.ne_zero_of_lt hfuel)
      rw [escapeChars, List.flatMap_nil, scanItems]
      rfl
  | cons c text ih =>
      obtain ⟨fuel, rfl⟩ : ∃ n, fuel = n + 2 :=
        Nat.exists_eq_add_of_le' (by rw [List.length_cons] at hfuel; omega)
      have htail : 2 * text.length < fuel := by rw [List.length_cons] at hfuel; omega
      rw [escapeChars_cons, scanItems_escapeChar,
        scanRest_of_head fun _ => head?_escapeChars_not_mem, ih htail]
      rfl

/-- What is read as items to the end of a text is read as an expression. -/
theorem parse?_of_scanItems {items : List Regex}
    (hitems : scanItems (4 * cs.length + 3) false cs = some (items, anyCase, [])) :
    parse? (String.ofList cs) = some (ofItems items) := by
  rw [parse?, String.toList_ofList, scanBranches, hitems]
  rfl

/-- An escaped text is read as its letters. -/
theorem parse?_escape (text : String) :
    parse? (escape text) = some (ofItems (text.toList.map (.letter · false))) := by
  have hlength := length_le_length_escapeChars text.toList
  exact parse?_of_scanItems (scanItems_escapeChars (by omega))

/-- After the mark of the start it is read as that mark and its letters. -/
theorem parse?_start (text : String) : parse? ("^" ++ escape text)
    = some (ofItems (.start :: text.toList.map (.letter · false))) := by
  have hlength := length_le_length_escapeChars text.toList
  have happend : String.ofList (['^'] ++ escapeChars text.toList) = "^" ++ escape text :=
    String.ofList_append
  have hitems : scanItems (4 * ('^' :: escapeChars text.toList).length + 3) false
      ('^' :: escapeChars text.toList)
        = some (.start :: text.toList.map (.letter · false), false, []) := by
    rw [scanItems, scanRest_of_head fun _ => head?_escapeChars_not_mem,
      scanItems_escapeChars (by rw [List.length_cons]; omega)]
    all_goals simp
  rw [← happend]
  exact parse?_of_scanItems hitems

/-! ## §3. The form. -/

theorem letterForm_eq (c : Char) : letterForm c false = .literal [c] := by
  have honly : (CharSet.single c).only? = some c := by
    show (if c.toNat = c.toNat then some (Char.ofNat c.toNat) else none) = some c
    rw [if_pos rfl, Char.ofNat_toNat]
  rw [letterForm, if_neg Bool.false_ne_true, Form.ofSet, honly]

theorem forms_letters (text : List Char) :
    forms (text.map (.letter · false)) = text.map fun c => .literal [c] := by
  induction text with
  | nil => rfl
  | cons c text ih => rw [List.map_cons, forms, form, letterForm_eq, ih, List.map_cons]

/-- Letters side by side become one literal. -/
theorem foldr_join_letters (c : Char) (text : List Char) :
    ((c :: text).map fun c => Form.literal [c]).foldr Form.join [] = [.literal (c :: text)] := by
  induction text generalizing c with
  | nil => rfl
  | cons d text ih =>
      rw [List.map_cons, List.foldr_cons, ih d]
      rfl

theorem flatMap_items_letters (text : List Char) :
    (text.map fun c => Form.literal [c]).flatMap Form.items
      = text.map fun c => Form.literal [c] := by
  rw [List.flatMap_map]
  exact List.map_eq_flatMap.symm

/-- The form of letters is a literal. -/
theorem form_letters (c : Char) (text : List Char) :
    form (ofItems ((c :: text).map (.letter · false))) = .literal (c :: text) := by
  cases text with
  | nil => exact letterForm_eq c
  | cons d text =>
      show Form.ofItems (forms ((c :: d :: text).map (.letter · false))) = _
      rw [forms_letters, Form.ofItems, flatMap_items_letters, foldr_join_letters]

/-- After the mark of the start the letters are a literal of their own. -/
theorem form_start (c : Char) (text : List Char) :
    form (ofItems (.start :: (c :: text).map (.letter · false)))
      = .sequence [.start, .literal (c :: text)] := by
  show Form.ofItems (.start :: forms ((c :: text).map (.letter · false))) = _
  rw [forms_letters, Form.ofItems, List.flatMap_cons, flatMap_items_letters, Form.items,
    List.cons_append, List.nil_append, List.foldr_cons, foldr_join_letters]
  · rfl
  all_goals simp

theorem depthList_letters (text : List Char) : depthList (text.map (.letter · false)) = 0 := by
  induction text with
  | nil => rfl
  | cons c text ih => rw [List.map_cons, depthList, depth, ih, Nat.max_self]

/-- Expressions in sequence nest at most one level deeper than they do themselves. -/
theorem depth_ofItems_le (es : List Regex) : depth (ofItems es) ≤ depthList es + 1 := by
  match es with
  | [] => exact Nat.zero_le _
  | [e] => exact Nat.le_succ_of_le (Nat.le_max_left ..)
  | _ :: _ :: _ => exact Nat.le_refl _

/-! ## §4. The automaton. -/

/-- The bytes of a text, by its characters. -/
theorem length_utf8 (text : String) :
    (text.toList.flatMap String.utf8EncodeChar).length = text.utf8ByteSize := by
  rw [← String.size_toByteArray, ← String.utf8Encode_toList, List.utf8Encode,
    List.size_toByteArray]

section

open Automaton

theorem fits_iff {p : Form} :
    fits p = true ↔ size .forward p ≤ maxSize ∧ size .backward p ≤ maxSize := by
  rw [fits, Bool.and_eq_true, decide_eq_true_eq, decide_eq_true_eq]

variable {n : Nat} (hbytes : (text.flatMap String.utf8EncodeChar).length = n)

include hbytes

/-- The automaton of a literal has a state for each byte, and some more to find it anywhere. -/
theorem fits_literal (hn : 32 * n + 208 ≤ maxSize) : fits (.literal text) = true := by
  have hforward : size .forward (.literal text) = 32 * n + 208 := by
    -- what leads to a match, the group around the literal, and the state that ends it
    show 36 + 72 + 4 + (32 + (32 * (encode .forward text).length + 0) + 32 + 0) + 32 = _
    rw [encode, hbytes]
    omega
  have hbackward : size .backward (.literal text) = 32 * n + 144 := by
    show 36 + 72 + 4 + (32 * (encode .backward text).length + 0) + 32 = _
    rw [encode, List.length_reverse, hbytes]
    omega
  rw [fits_iff, hforward, hbackward]
  omega

/-- After the mark of the start nothing leads to a match forward, as it does backward. -/
theorem fits_start (hn : 32 * n + 208 ≤ maxSize) :
    fits (.sequence [.start, .literal text]) = true := by
  have hforward : size .forward (.sequence [.start, .literal text]) = 32 * n + 160 := by
    show 32 + (32 + (32 + 0 + 32 * (encode .forward text).length + 0) + 32 + 0) + 32 = _
    rw [encode, hbytes]
    omega
  have hbackward : size .backward (.sequence [.start, .literal text]) = 32 * n + 176 := by
    show 36 + 72 + 4 + (32 * (encode .backward text).length + 0 + 32 + 0) + 32 = _
    rw [encode, List.length_reverse, hbytes]
    omega
  rw [fits_iff, hforward, hbackward]
  omega

end

end ApiGuard.Regex
