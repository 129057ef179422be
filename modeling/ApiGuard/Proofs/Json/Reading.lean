/-
  ApiGuard.Proofs.Json.Reading
  ────────────────────────────
  Texts that are read as a value.

  A string is read back from its escapes, an integer from its digits, and an array or an
  object from the texts of its parts, each of which stops at what follows it:

      scanPieces_escape                   a character between quotes
      scanNumber_toDigits                 an integer that a word holds
      IsTextOf                            the text is read as the value
      isTextOf_array, isTextOf_object     the parts with commas between them
-/
import ApiGuard.Json.Reader
import ApiGuard.Json.Writer
import ApiGuard.Proofs.Text.Scan
import Mathlib.Data.List.Forall2

namespace ApiGuard

open Text

/-! ## §1. Strings. -/

namespace Json

/-- A character is escaped by a letter, by its number, or not at all. -/
theorem escape_cases (c : Char) :
    (∃ e, e ≠ 'u' ∧ escape? e = some c ∧ escape c = ['\\', e])
      ∨ (c.toNat < 0x20
          ∧ escape c = ['\\', 'u', '0', '0', hexDigit (c.toNat / 16), hexDigit (c.toNat % 16)])
      ∨ (c ≠ '"' ∧ c ≠ '\\' ∧ ¬ c.toNat < 0x20 ∧ escape c = [c]) := by
  unfold escape
  -- seven characters have a letter, the other control characters a number
  split
  next h => exact .inl ⟨'"', by decide, by rw [h]; rfl, rfl⟩
  next hquote =>
  split
  next h => exact .inl ⟨'\\', by decide, by rw [h]; rfl, rfl⟩
  next hslash =>
  split
  next h => exact .inl ⟨'b', by decide, by rw [h]; rfl, rfl⟩
  split
  next h => exact .inl ⟨'f', by decide, by rw [h]; rfl, rfl⟩
  split
  next h => exact .inl ⟨'n', by decide, by rw [h]; rfl, rfl⟩
  split
  next h => exact .inl ⟨'r', by decide, by rw [h]; rfl, rfl⟩
  split
  next h => exact .inl ⟨'t', by decide, by rw [h]; rfl, rfl⟩
  split
  next hcontrol => exact .inr (.inl ⟨hcontrol, rfl⟩)
  next hcontrol => exact .inr (.inr ⟨hquote, hslash, hcontrol, rfl⟩)

/-- The piece stands for the character, by itself or by its number. -/
inductive IsPieceOf : Piece → Char → Prop
  | char {c : Char} : IsPieceOf (.char c) c
  | code {c : Char} : c.toNat < 0x20 → IsPieceOf (.code c.toNat) c

theorem hexValue?_hexDigit :
    ∀ n < 0x20, hexValue? ['0', '0', hexDigit (n / 16), hexDigit (n % 16)] = some n := by
  decide

theorem scanPieces_letter {e c : Char} (hu : e ≠ 'u') (he : escape? e = some c)
    (cs : List Char) :
    scanPieces ('\\' :: e :: cs)
      = (scanPieces cs).map fun (pieces, rest) => (.char c :: pieces, rest) := by
  rw [scanPieces]
  · rw [he]
    cases scanPieces cs <;> rfl
  · intro _ _ _ _ _ h
    exact absurd h hu

/-- A character is read back from its escape. -/
theorem scanPieces_escape (c : Char) :
    ∃ piece, IsPieceOf piece c ∧ ∀ cs, scanPieces (escape c ++ cs)
      = (scanPieces cs).map fun (pieces, rest) => (piece :: pieces, rest) := by
  rcases escape_cases c with ⟨e, hu, he, heq⟩ | ⟨hcontrol, heq⟩ | ⟨hquote, hslash, hcontrol, heq⟩
  · refine ⟨.char c, .char, fun cs => ?_⟩
    rw [heq]
    exact scanPieces_letter hu he cs
  · refine ⟨.code c.toNat, .code hcontrol, fun cs => ?_⟩
    rw [heq]
    show scanPieces ('\\' :: 'u' :: '0' :: '0' :: _ :: _ :: cs) = _
    rw [scanPieces, hexValue?_hexDigit _ hcontrol]
    cases scanPieces cs <;> rfl
  · refine ⟨.char c, .char, fun cs => ?_⟩
    rw [heq]
    show scanPieces (c :: cs) = _
    rw [scanPieces, if_neg hcontrol]
    · exact hquote
    · intro _ _ _ _ _ h
      exact absurd h hslash
    · intro _ _ h
      exact absurd h hslash

/-- The number of a control character is no half of a surrogate pair. -/
theorem textOf?_code {unit : Nat} (hcontrol : unit < 0x20) (pieces : List Piece) :
    textOf? (.code unit :: pieces) = (textOf? pieces).map (Char.ofNat unit :: ·) := by
  have hhigh : isHighHalf unit = false := by
    unfold isHighHalf
    simp only [Bool.and_eq_false_iff, decide_eq_false_iff_not]
    omega
  have hlow : isLowHalf unit = false := by
    unfold isLowHalf
    simp only [Bool.and_eq_false_iff, decide_eq_false_iff_not]
    omega
  cases pieces with
  | nil => simp [textOf?, hhigh, hlow]
  | cons piece pieces =>
      cases piece with
      | char c => simp [textOf?, hhigh, hlow]
      | code low => simp [textOf?, hhigh, hlow]

theorem textOf?_eq_some {pieces : List Piece} {cs : List Char}
    (hpieces : List.Forall₂ IsPieceOf pieces cs) : textOf? pieces = some cs := by
  induction hpieces with
  | nil => rfl
  | cons hpiece _ ih =>
      cases hpiece with
      | char => rw [textOf?, ih, Option.map_some]
      | code hcontrol => rw [textOf?_code hcontrol, ih, Option.map_some, Char.ofNat_toNat]

/-- A text is read back from between its quotes. -/
theorem scanPieces_flatMap_escape (cs rest : List Char) :
    ∃ pieces, List.Forall₂ IsPieceOf pieces cs
      ∧ scanPieces (cs.flatMap escape ++ '"' :: rest) = some (pieces, rest) := by
  induction cs with
  | nil => exact ⟨[], .nil, by rw [List.flatMap_nil, List.nil_append, scanPieces]⟩
  | cons c cs ih =>
      obtain ⟨pieces, hpieces, hscan⟩ := ih
      obtain ⟨piece, hpiece, hescape⟩ := scanPieces_escape c
      refine ⟨piece :: pieces, .cons hpiece hpieces, ?_⟩
      rw [List.flatMap_cons, List.append_assoc, hescape, hscan, Option.map_some]

theorem scanString_quote (text : String) (rest : List Char) :
    scanString (text.toList.flatMap escape ++ '"' :: rest) = some (some text, rest) := by
  obtain ⟨pieces, hpieces, hscan⟩ := scanPieces_flatMap_escape text.toList rest
  unfold scanString
  rw [hscan]
  show some ((textOf? pieces).map String.ofList, rest) = _
  rw [textOf?_eq_some hpieces, Option.map_some, String.ofList_toList]

theorem toList_quote (text : String) :
    (quote text).toList = '"' :: (text.toList.flatMap escape ++ ['"']) := by
  simp [quote]

end Json

/-! ## §2. Integers. -/

namespace Decimal

/-- Digits are taken up one by one as long as a word holds the number. -/
theorem append_eq_of_lt : ∀ {cs : List Char} {n : Nat},
    Nat.ofDigitChars 10 cs n < wordLimit → append n cs = (Nat.ofDigitChars 10 cs n, [])
  | [], _, _ => rfl
  | c :: cs, n, hlt => by
    rw [Nat.ofDigitChars_cons] at hlt
    have hle : 10 * n + digitValue c ≤ Nat.ofDigitChars 10 cs (10 * n + digitValue c) := by
      rw [Nat.ofDigitChars_eq_ofDigitChars_zero]
      exact Nat.le_add_right_of_le (Nat.le_mul_of_pos_left _ (Nat.pow_pos (by decide)))
    rw [append, if_pos (Nat.lt_of_le_of_lt hle hlt), Nat.ofDigitChars_cons]
    exact append_eq_of_lt hlt

/-- No zero precedes the other digits. -/
theorem head?_toDigits_ne_zero : ∀ {n : Nat}, 0 < n → (Nat.toDigits 10 n).head? ≠ some '0' := by
  intro n
  induction n using Nat.strongRecOn with
  | _ n ih =>
      intro hn
      by_cases hlt : n < 10
      · rw [Nat.toDigits_of_lt_base hlt]
        have hdigits : ∀ d < 10, 0 < d → [Nat.digitChar d].head? ≠ some '0' := by decide
        exact hdigits n hlt hn
      · rw [Nat.toDigits_of_base_le (by decide) (by omega),
          List.head?_append_of_ne_nil _ Nat.toDigits_ne_nil]
        exact ih (n / 10) (by omega) (by omega)

end Decimal

namespace Json

/-- Does the character go on with a number? -/
def continuesNumber (c : Char) : Bool := c.isDigit || c == '.' || c == 'e' || c == 'E'

variable {rest : List Char} {n : Nat}

theorem stops_isDigit (hstop : Stops continuesNumber rest) : Stops Char.isDigit rest := by
  intro c hc
  have h := hstop c hc
  simp only [continuesNumber, Bool.or_eq_false_iff] at h
  exact h.1.1.1

theorem scanInteger_toDigits (n : Nat) (hstop : Stops Char.isDigit rest) :
    scanInteger (Nat.toDigits 10 n ++ rest) = some (Nat.toDigits 10 n, rest) := by
  have hdigit : ∀ c ∈ Nat.toDigits 10 n, c.isDigit = true := fun c hc =>
    Nat.isDigit_of_mem_toDigits (by decide) (by decide) hc
  have hhead := fun hn : 0 < n => Decimal.head?_toDigits_ne_zero hn
  by_cases hn : n = 0
  · rw [hn, Nat.toDigits_zero]
    rfl
  · rw [scanInteger, takeWhile_append hdigit hstop, dropWhile_append hdigit hstop,
      if_neg Nat.toDigits_ne_nil]
    intro tail heq
    apply hhead (by omega)
    rw [← List.head?_append_of_ne_nil _ Nat.toDigits_ne_nil, heq]
    rfl

theorem scanFraction_of_stops (hstop : Stops continuesNumber rest) :
    scanFraction rest = some ([], rest) := by
  rw [scanFraction]
  rintro tail rfl
  exact absurd (hstop '.' rfl) (by decide)

theorem scanExponent_of_stops (hstop : Stops continuesNumber rest) :
    scanExponent rest = some (none, rest) := by
  cases rest with
  | nil => rfl
  | cons c rest =>
      unfold scanExponent
      refine if_neg ?_
      rintro (rfl | rfl)
      · exact absurd (hstop 'e' rfl) (by decide)
      · exact absurd (hstop 'E' rfl) (by decide)

/-- The digits of a number that a word holds are read as this number. -/
theorem scanNumber_toDigits (negative : Bool) (hn : n < Decimal.wordLimit)
    (hstop : Stops continuesNumber rest) :
    scanNumber negative (Nat.toDigits 10 n ++ rest) = some (⟨negative, n, 0, true⟩, rest) := by
  have hvalue : Nat.ofDigitChars 10 (Nat.toDigits 10 n) 0 = n := Nat.ofDigitChars_ten_toDigits
  have happend : Decimal.append 0 (Nat.toDigits 10 n) = (n, []) := by
    rw [Decimal.append_eq_of_lt (hvalue.symm ▸ hn), hvalue]
  unfold scanNumber
  -- what follows is neither a fraction nor an exponent
  rw [scanInteger_toDigits n (stops_isDigit hstop)]
  show ((scanFraction rest).bind _) = _
  rw [scanFraction_of_stops hstop]
  show ((scanExponent rest).bind _) = _
  rw [scanExponent_of_stops hstop, Option.bind_some]
  simp only [happend]
  rfl

theorem toList_render_ofInt (i : Int) :
    (JsonNumber.ofInt i).render.toList
      = (if i < 0 then ['-'] else []) ++ Nat.toDigits 10 i.natAbs := by
  unfold JsonNumber.render JsonNumber.ofInt
  split <;> simp_all

/-! ## §3. Values. -/

/-- The text is read as the value, whatever follows that does not go on with a number.  It
needs no more than twice as many nested calls as it has characters. -/
structure IsTextOf (cs : List Char) (j : Json) : Prop where
  opens : ∃ c tail, cs = c :: tail ∧ isWhite c = false ∧ c ≠ ']'
  reads : ∀ (rest : List Char) (fuel : Nat), Stops continuesNumber rest → 2 * cs.length ≤ fuel →
    scanValue fuel (cs ++ rest) = some (j, rest)

theorem skipWhite_cons {c : Char} (hc : isWhite c = false) (cs : List Char) :
    skipWhite (c :: cs) = c :: cs := by
  unfold skipWhite
  rw [List.dropWhile_cons, hc, if_neg Bool.false_ne_true]

/-- Where there is fuel for a character there is a call. -/
theorem exists_fuel {k fuel : Nat} (hfuel : 2 * (k + 1) ≤ fuel) :
    ∃ f, fuel = f + 1 ∧ 2 * k + 1 ≤ f := ⟨fuel - 1, by omega, by omega⟩

theorem isTextOf_null : IsTextOf ['n', 'u', 'l', 'l'] .null where
  opens := ⟨_, _, rfl, by decide, by decide⟩
  reads := by
    intro rest fuel _ hfuel
    obtain ⟨f, rfl, _⟩ := exists_fuel hfuel
    rfl

/-- The two words are read as the truth values. -/
theorem isTextOf_bool (b : Bool) :
    IsTextOf (if b then "true" else "false").toList (.bool b) where
  opens := by
    cases b with
    | true => exact ⟨_, _, rfl, by decide, by decide⟩
    | false => exact ⟨_, _, rfl, by decide, by decide⟩
  reads := by
    intro rest fuel _ hfuel
    cases b with
    | true =>
        obtain ⟨f, rfl, _⟩ := exists_fuel hfuel
        rfl
    | false =>
        obtain ⟨f, rfl, _⟩ := exists_fuel hfuel
        rfl

theorem isTextOf_quote (text : String) :
    IsTextOf ('"' :: (text.toList.flatMap escape ++ ['"'])) (.string text) where
  opens := ⟨_, _, rfl, by decide, by decide⟩
  reads := by
    intro rest fuel _ hfuel
    obtain ⟨f, rfl, _⟩ := exists_fuel hfuel
    rw [List.cons_append, List.append_assoc, scanValue, skipWhite_cons (by decide)]
    show (scanString (text.toList.flatMap escape ++ '"' :: rest)).map _ = _
    rw [scanString_quote]
    rfl

theorem isTextOf_minus (hn : n < Decimal.wordLimit) :
    IsTextOf ('-' :: Nat.toDigits 10 n) (.number ⟨true, n, 0, true⟩) where
  opens := ⟨_, _, rfl, by decide, by decide⟩
  reads := by
    intro rest fuel hstop hfuel
    obtain ⟨f, rfl, _⟩ := exists_fuel hfuel
    rw [List.cons_append, scanValue, skipWhite_cons (by decide)]
    show (scanNumber true (Nat.toDigits 10 n ++ rest)).map _ = _
    rw [scanNumber_toDigits true hn hstop]
    rfl

theorem isWhite_of_isDigit {c : Char} (hc : c.isDigit = true) : isWhite c = false := by
  refine Bool.eq_false_iff.mpr fun hwhite => ?_
  simp only [isWhite, Bool.or_eq_true, beq_iff_eq] at hwhite
  rcases hwhite with ((rfl | rfl) | rfl) | rfl <;> exact absurd hc (by decide)

/-- A digit opens a number and nothing else. -/
theorem scanValue_digit {c : Char} (hc : c.isDigit = true) (cs : List Char) (f : Nat) :
    scanValue (f + 1) (c :: cs)
      = (scanNumber false (c :: cs)).map fun (n, rest) => (.number n, rest) := by
  have hopens : ∀ d tail, d.isDigit = false → c :: cs ≠ d :: tail := by
    intro d tail hd heq
    obtain ⟨rfl, _⟩ := List.cons.inj heq
    rw [hc] at hd
    cases hd
  rw [scanValue, skipWhite_cons (isWhite_of_isDigit hc)]
  split
  case h_8 => rfl
  all_goals
    next heq => exact absurd heq (hopens _ _ (by decide))

/-- The digits of a number that a word holds are read as that number. -/
theorem isTextOf_toDigits (hn : n < Decimal.wordLimit) :
    IsTextOf (Nat.toDigits 10 n) (.number ⟨false, n, 0, true⟩) := by
  obtain ⟨d, ds, heq⟩ := List.exists_cons_of_ne_nil (Nat.toDigits_ne_nil (n := n) (b := 10))
  have hd : d.isDigit = true :=
    Nat.isDigit_of_mem_toDigits (n := n) (by decide) (by decide) (heq ▸ List.mem_cons_self)
  refine ⟨⟨d, ds, heq, isWhite_of_isDigit hd, ?_⟩, ?_⟩
  · rintro rfl
    exact absurd hd (by decide)
  · intro rest fuel hstop hfuel
    have hscan := scanNumber_toDigits false hn hstop
    rw [heq] at hfuel hscan ⊢
    obtain ⟨f, rfl, _⟩ := exists_fuel hfuel
    rw [List.cons_append] at hscan ⊢
    rw [scanValue_digit hd, hscan]
    rfl

/-- An integer that a word holds is read back from its digits. -/
theorem isTextOf_ofInt {i : Int} (hi : i.natAbs < Decimal.wordLimit) :
    IsTextOf (JsonNumber.ofInt i).render.toList (.ofInt i) := by
  unfold ofInt
  rw [toList_render_ofInt]
  unfold JsonNumber.ofInt
  by_cases hneg : i < 0
  · rw [if_pos hneg, decide_eq_true hneg]
    exact isTextOf_minus hi
  · rw [if_neg hneg, decide_eq_false hneg]
    exact isTextOf_toDigits hi

/-! ## §4. Arrays and objects. -/

variable {texts : List (List Char)} {items : List Json} {members : List (String × Json)}

/-- Items are read back from their texts with commas between them. -/
theorem scanItems_intercalate (hitems : List.Forall₂ IsTextOf texts items) (hne : items ≠ []) :
    ∀ (rest : List Char) (fuel : Nat), 2 * ([','].intercalate texts).length + 1 ≤ fuel →
      scanItems fuel ([','].intercalate texts ++ ']' :: rest) = some (items, rest) := by
  -- on the items: each stops at the comma or the bracket after it
  induction hitems with
  | nil => exact absurd rfl hne
  | @cons text item texts items hitem hrest ih =>
      intro rest fuel hfuel
      obtain ⟨f, rfl⟩ : ∃ f, fuel = f + 1 := ⟨fuel - 1, by omega⟩
      cases hrest with
      | nil =>
          rw [List.intercalate_singleton] at hfuel ⊢
          rw [scanItems, hitem.reads _ _ (stops_cons (by decide)) (by omega)]
          rfl
      | @cons text' item' texts items hitem' hrest =>
          rw [List.intercalate_cons_cons, List.append_assoc, List.length_append,
            List.length_append, List.length_singleton] at hfuel
          rw [List.intercalate_cons_cons, List.append_assoc, List.append_assoc, scanItems,
            List.singleton_append, hitem.reads _ _ (stops_cons (by decide)) (by omega)]
          have htail := ih (List.cons_ne_nil _ _) rest f (by omega)
          show ((scanItems f _).bind _) = _
          rw [htail]
          rfl

/-- Texts with commas between them start with the first one. -/
theorem intercalate_cons (text : List Char) (texts : List (List Char)) :
    ∃ more, [','].intercalate (text :: texts) = text ++ more := by
  cases texts with
  | nil => exact ⟨[], by rw [List.intercalate_singleton, List.append_nil]⟩
  | cons text' texts =>
      exact ⟨_, by rw [List.intercalate_cons_cons, List.append_assoc]⟩

/-- Texts of values between brackets are read as the array of these values. -/
theorem isTextOf_array (hitems : List.Forall₂ IsTextOf texts items) :
    IsTextOf ('[' :: ([','].intercalate texts ++ [']'])) (.array items) where
  opens := ⟨_, _, rfl, by decide, by decide⟩
  reads := by
    intro rest fuel _ hfuel
    obtain ⟨f, rfl, hf⟩ := exists_fuel hfuel
    rw [List.cons_append, List.append_assoc, List.singleton_append, scanValue,
      skipWhite_cons (by decide)]
    cases hitems with
    | nil => rfl
    | @cons text item texts items hitem hrest =>
        have hscan := scanItems_intercalate (.cons hitem hrest) (List.cons_ne_nil _ _) rest f
          (by rw [List.length_append] at hf; omega)
        -- the first item does not close the array
        obtain ⟨more, hmore⟩ := intercalate_cons text texts
        obtain ⟨c, tail, rfl, hwhite, hclosing⟩ := hitem.opens
        rw [hmore] at hscan ⊢
        simp only [List.cons_append] at hscan ⊢
        rw [skipWhite_cons hwhite]
        split
        next heq => exact absurd (List.cons.inj heq).1 hclosing
        next =>
            rw [hscan]
            rfl

/-- The text is read as the member. -/
def IsMemberText (cs : List Char) (member : String × Json) : Prop :=
  ∃ text, IsTextOf text member.2
    ∧ cs = '"' :: (member.1.toList.flatMap escape ++ '"' :: ':' :: text)

/-- After a member it is read on. -/
theorem scanMembers_member {text : List Char} {member : String × Json} {f : Nat}
    (hmember : IsMemberText text member) (hstop : Stops continuesNumber rest)
    (hf : 2 * text.length ≤ f) :
    scanMembers (f + 1) (text ++ rest)
      = match skipWhite rest with
        | ',' :: rest =>
          (scanMembers f rest).map fun (members, rest) =>
            ((some member.1, member.2) :: members, rest)
        | '}' :: rest => some ([(some member.1, member.2)], rest)
        | _ => none := by
  obtain ⟨value, hvalue, rfl⟩ := hmember
  have hfuel : 2 * value.length ≤ f := by
    simp only [List.length_cons, List.length_append] at hf
    omega
  rw [scanMembers, List.cons_append, skipWhite_cons (by decide), List.append_assoc]
  show ((scanString (member.1.toList.flatMap escape ++ '"' :: ':' :: (value ++ rest))).bind _) = _
  rw [scanString_quote, Option.bind_some]
  show ((expect ':' (skipWhite (':' :: (value ++ rest)))).bind _) = _
  rw [skipWhite_cons (by decide)]
  show ((scanValue f (value ++ rest)).bind _) = _
  rw [hvalue.reads rest f hstop hfuel]
  show (match skipWhite rest with | ',' :: rest => _ | '}' :: rest => _ | _ => _) = _
  split
  next tail _ =>
      show ((scanMembers f tail).bind _) = _
      cases scanMembers f tail <;> rfl
  next => rfl
  next => rfl

/-- Members are read back from their texts with commas between them. -/
theorem scanMembers_intercalate (hmembers : List.Forall₂ IsMemberText texts members)
    (hne : members ≠ []) :
    ∀ (rest : List Char) (fuel : Nat), 2 * ([','].intercalate texts).length + 1 ≤ fuel →
      scanMembers fuel ([','].intercalate texts ++ '}' :: rest)
        = some (members.map fun (name, j) => (some name, j), rest) := by
  -- on the members, as for items
  induction hmembers with
  | nil => exact absurd rfl hne
  | @cons text member texts members hmember hrest ih =>
      intro rest fuel hfuel
      obtain ⟨f, rfl⟩ : ∃ f, fuel = f + 1 := ⟨fuel - 1, by omega⟩
      cases hrest with
      | nil =>
          rw [List.intercalate_singleton] at hfuel ⊢
          rw [scanMembers_member hmember (stops_cons (by decide)) (by omega)]
          rfl
      | @cons text' member' texts members hmember' hrest =>
          rw [List.intercalate_cons_cons, List.append_assoc, List.length_append,
            List.length_append, List.length_singleton] at hfuel
          rw [List.intercalate_cons_cons, List.append_assoc, List.append_assoc,
            List.singleton_append,
            scanMembers_member hmember (stops_cons (by decide)) (by omega)]
          have htail := ih (List.cons_ne_nil _ _) rest f (by omega)
          show ((scanMembers f _).map _) = _
          rw [htail]
          rfl

theorem ofMembers_map (members : List (String × Json)) :
    ofMembers (members.map fun (name, j) => (some name, j)) = .object members := by
  have hnames : (members.map fun (name, j) => (some name, j)).mapM
      (fun (member : Option String × Json) => member.1.map (·, member.2)) = some members := by
    rw [List.mapM_map]
    exact List.mapM_pure.trans (congrArg some (List.map_id' members))
  unfold ofMembers
  rw [hnames]

/-- Texts of members between braces are read as the object of these members. -/
theorem isTextOf_object (hmembers : List.Forall₂ IsMemberText texts members) :
    IsTextOf ('{' :: ([','].intercalate texts ++ ['}'])) (.object members) where
  opens := ⟨_, _, rfl, by decide, by decide⟩
  reads := by
    intro rest fuel _ hfuel
    obtain ⟨f, rfl, hf⟩ := exists_fuel hfuel
    rw [List.cons_append, List.append_assoc, List.singleton_append, scanValue,
      skipWhite_cons (by decide)]
    cases hmembers with
    | nil => rfl
    | @cons text member texts members hmember hrest =>
        have hscan := scanMembers_intercalate (.cons hmember hrest) (List.cons_ne_nil _ _) rest f
          (by rw [List.length_append] at hf; omega)
        obtain ⟨more, hmore⟩ := intercalate_cons text texts
        obtain ⟨value, _, rfl⟩ := hmember
        rw [hmore] at hscan ⊢
        simp only [List.cons_append] at hscan ⊢
        rw [skipWhite_cons (by decide)]
        show (scanMembers f _).map _ = _
        rw [hscan, Option.map_some, ofMembers_map]

end Json

end ApiGuard
