/-
  ApiGuard.Proofs.Signature.Grammar
  ─────────────────────────────────
  The grammar of method signatures.

  A signature is written `<class: type name(piece,piece)>`.  The class goes up to the first
  colon, the type up to the first space, the name up to the first opening parenthesis, and a
  piece up to a comma or closing parenthesis; each has at least one character.  A part may
  have the marks that end the others, yet no text has this form in two ways, and reading
  each part as far as it goes never misses it:

      scanPieces_intercalate    pieces are read up to a closing parenthesis
      ofChars?_eq_some_iff      what is read as a signature is what is written as one
      text_injective            a text is written in one way
      parse_grammar             all of these
-/
import ApiGuard.Proofs.Text.Scan
import ApiGuard.Signature
import Mathlib.Data.List.Forall2
import Mathlib.Data.Option.Basic

namespace ApiGuard

open Text

/-! ## §1. Words. -/

/-- The word has characters, and none of them is a stop. -/
structure IsWord (stops : List Char) (word : String) : Prop where
  ne_empty : word ≠ ""
  not_mem : ∀ c ∈ stops, c ∉ word.toList

instance (stops : List Char) (word : String) : Decidable (IsWord stops word) :=
  -- Over the stops: all characters could be gone through as well.
  haveI : Decidable (∀ c ∈ stops, c ∉ word.toList) := List.decidableBAll _ stops
  decidable_of_iff (word ≠ "" ∧ ∀ c ∈ stops, c ∉ word.toList)
    ⟨fun h => ⟨h.1, h.2⟩, fun h => ⟨h.ne_empty, h.not_mem⟩⟩

section Words

variable {isStop : Char → Bool} {stops : List Char} {w cs rest : List Char} {word : String}
  {c : Char}

/-- What is read as a word is one. -/
theorem isWord_of_wordBefore (hstops : ∀ c, isStop c = true ↔ c ∈ stops)
    (hread : wordBefore isStop cs = some (w, rest)) :
    IsWord stops (String.ofList w) ∧ cs = w ++ rest := by
  obtain ⟨hne, hnot, _, hcs⟩ := wordBefore_eq_some_iff.mp hread
  refine ⟨⟨?_, fun c hc hmem => ?_⟩, hcs⟩
  · rwa [Ne, String.ofList_eq_empty_iff]
  · rw [String.toList_ofList] at hmem
    exact absurd ((hstops c).mpr hc) (Bool.eq_false_iff.mp (hnot c hmem))

/-- A word is read if a stop follows. -/
theorem wordBefore_append (hstops : ∀ c, isStop c = true ↔ c ∈ stops)
    (hword : IsWord stops word) (hc : c ∈ stops) :
    wordBefore isStop (word.toList ++ c :: rest) = some (word.toList, c :: rest) := by
  have hne : word.toList ≠ [] := by
    rw [Ne, String.toList_eq_nil_iff]
    exact hword.ne_empty
  have hnot : ∀ d ∈ word.toList, isStop d = false := by
    intro d hd
    refine Bool.eq_false_iff.mpr fun hstop => ?_
    exact hword.not_mem d ((hstops d).mp hstop) hd
  have hstop : Stops (!isStop ·) (c :: rest) := stops_cons (by rw [(hstops c).mpr hc]; rfl)
  exact wordBefore_eq_some_iff.mpr ⟨hne, hnot, hstop, rfl⟩

end Words

namespace Signature

/-! ## §2. Pieces. -/

variable {cs w rest : List Char} {pieces : List String}

theorem endsPiece_iff (c : Char) : endsPiece c = true ↔ c ∈ [',', ')'] := by
  simp [endsPiece]

theorem scanPieces_of_none (hread : wordBefore endsPiece cs = none) :
    scanPieces cs = ([], cs) := by
  grind [scanPieces]

/-- A comma that pieces follow goes with them. -/
theorem scanPieces_of_comma (hread : wordBefore endsPiece cs = some (w, ',' :: rest))
    (hmore : (scanPieces rest).1 ≠ []) :
    scanPieces cs = (w :: (scanPieces rest).1, (scanPieces rest).2) := by
  grind [scanPieces]

/-- The closing parenthesis ends the last piece. -/
theorem scanPieces_of_closing (hread : wordBefore endsPiece cs = some (w, ')' :: rest)) :
    scanPieces cs = ([w], ')' :: rest) := by
  grind [scanPieces]

/-- What is read are pieces with commas between them, at the front of the text. -/
theorem isWord_of_mem_scanPieces (cs : List Char) :
    (∀ piece ∈ (scanPieces cs).1, IsWord [',', ')'] (String.ofList piece))
      ∧ cs = [','].intercalate (scanPieces cs).1 ++ (scanPieces cs).2 := by
  fun_induction scanPieces cs with
  | case1 cs hread => exact ⟨List.forall_mem_nil _, rfl⟩
  | case2 cs piece rest hread _ _ _ =>
      obtain ⟨hpiece, rfl⟩ := isWord_of_wordBefore endsPiece_iff hread
      exact ⟨List.forall_mem_singleton.mpr hpiece, by rw [List.intercalate_singleton]⟩
  | case3 cs piece rest hread pieces rest' hne hmore ih =>
      obtain ⟨hpiece, rfl⟩ := isWord_of_wordBefore endsPiece_iff hread
      rw [hmore] at ih
      obtain ⟨hpieces, rfl⟩ := ih
      refine ⟨List.forall_mem_cons.mpr ⟨hpiece, hpieces⟩, ?_⟩
      rw [List.intercalate_cons_of_ne_nil hne, List.append_assoc, List.append_assoc]
      rfl
  | case4 cs piece rest _ hread =>
      obtain ⟨hpiece, rfl⟩ := isWord_of_wordBefore endsPiece_iff hread
      exact ⟨List.forall_mem_singleton.mpr hpiece, by rw [List.intercalate_singleton]⟩

/-- Pieces with commas between them are read if a closing parenthesis follows. -/
theorem scanPieces_intercalate (hpieces : ∀ piece ∈ pieces, IsWord [',', ')'] piece)
    (rest : List Char) :
    scanPieces ([','].intercalate (pieces.map String.toList) ++ ')' :: rest)
      = (pieces.map String.toList, ')' :: rest) := by
  induction pieces with
  | nil => exact scanPieces_of_none rfl
  | cons piece pieces ih =>
      obtain ⟨hpiece, hpieces⟩ := List.forall_mem_cons.mp hpieces
      by_cases hnil : pieces = []
      · subst hnil
        rw [List.map_singleton, List.intercalate_singleton]
        exact scanPieces_of_closing (wordBefore_append endsPiece_iff hpiece (by decide))
      · have hne : pieces.map String.toList ≠ [] := by
          rwa [Ne, List.map_eq_nil_iff]
        have hmore := ih hpieces
        rw [List.map_cons, List.intercalate_cons_of_ne_nil hne, List.append_assoc,
          List.append_assoc, List.singleton_append]
        rw [scanPieces_of_comma (wordBefore_append endsPiece_iff hpiece (by decide))
          (by rwa [hmore]), hmore]

/-! ## §3. Written signatures. -/

theorem toList_render (sig : Signature) :
    sig.render.toList = '<' :: (sig.className.toList ++ ':' :: ' ' :: (sig.returnType.toList
      ++ ' ' :: (sig.name.toList ++ '(' :: ([','].intercalate (sig.parameters.map String.toList)
        ++ [')', '>'])))) := by
  unfold render
  simp [String.toList_intercalate]

end Signature

/-- A signature as it is written, with all blank characters. -/
@[ext]
structure WrittenSignature where
  className : String
  returnType : String
  name : String
  /-- What is between the commas of the parameter list. -/
  pieces : List String
  isWord_className : IsWord [':'] className
  isWord_returnType : IsWord [' '] returnType
  isWord_name : IsWord ['('] name
  isWord_piece : ∀ piece ∈ pieces, IsWord [',', ')'] piece

namespace WrittenSignature

/-- The text that is written. -/
def text (p : WrittenSignature) : String :=
  "<" ++ p.className ++ ": " ++ p.returnType ++ " " ++ p.name ++ "("
    ++ ",".intercalate p.pieces ++ ")>"

/-- The signature has the parts that are written, its parameters being the pieces without
the blank characters at their ends. -/
structure IsFormOf (p : WrittenSignature) (sig : Signature) : Prop where
  className : sig.className = p.className
  returnType : sig.returnType = p.returnType
  name : sig.name = p.name
  parameters : List.Forall₂ (fun piece parameter : String =>
    IsTrimmed piece.toList parameter.toList) p.pieces sig.parameters

/-- The signature of this form. -/
def signature (p : WrittenSignature) : Signature where
  className := p.className
  returnType := p.returnType
  name := p.name
  parameters := p.pieces.map fun piece => String.ofList (trim piece.toList)

theorem toList_text (p : WrittenSignature) :
    p.text.toList = '<' :: (p.className.toList ++ ':' :: ' ' :: (p.returnType.toList ++ ' ' ::
      (p.name.toList ++ '(' :: ([','].intercalate (p.pieces.map String.toList)
        ++ [')', '>'])))) :=
  Signature.toList_render ⟨p.className, p.returnType, p.name, p.pieces⟩

/-- The marks that end the parts are found in one way only. -/
theorem text_injective {p q : WrittenSignature} (h : p.text = q.text) : p = q := by
  have hchars := congrArg String.toList h
  rw [toList_text, toList_text] at hchars
  obtain ⟨hclass, hchars⟩ := append_cons_inj (p.isWord_className.not_mem ':' (by decide))
    (q.isWord_className.not_mem ':' (by decide)) (List.cons.inj hchars).2
  obtain ⟨hreturn, hchars⟩ := append_cons_inj (p.isWord_returnType.not_mem ' ' (by decide))
    (q.isWord_returnType.not_mem ' ' (by decide)) (List.cons.inj hchars).2
  obtain ⟨hname, hchars⟩ := append_cons_inj (p.isWord_name.not_mem '(' (by decide))
    (q.isWord_name.not_mem '(' (by decide)) hchars
  have hpieces := congrArg Signature.scanPieces hchars
  rw [Signature.scanPieces_intercalate p.isWord_piece,
    Signature.scanPieces_intercalate q.isWord_piece] at hpieces
  have htoList : Function.Injective String.toList := fun _ _ => String.toList_inj.mp
  exact WrittenSignature.ext (htoList hclass) (htoList hreturn) (htoList hname)
    (htoList.list_map (Prod.mk.inj hpieces).1)

/-- A written signature is the form of one signature only, the one of its parts. -/
theorem isFormOf_iff {p : WrittenSignature} {sig : Signature} :
    p.IsFormOf sig ↔ p.signature = sig := by
  have htrim : ∀ piece parameter : String, IsTrimmed piece.toList parameter.toList
      ↔ String.ofList (trim piece.toList) = parameter := by
    intro piece parameter
    rw [isTrimmed_iff, ← String.toList_inj, String.toList_ofList]
  have hparameters : List.Forall₂ (fun piece parameter : String =>
      IsTrimmed piece.toList parameter.toList) p.pieces sig.parameters
        ↔ p.signature.parameters = sig.parameters := by
    rw [← List.forall₂_eq_eq_eq]
    show _ ↔ List.Forall₂ Eq (p.pieces.map _) _
    rw [List.forall₂_map_left_iff]
    simp only [htrim]
  constructor
  · rintro ⟨hclass, hreturn, hname, htrimmed⟩
    cases sig
    cases hclass
    cases hreturn
    cases hname
    exact congrArg (Signature.mk _ _ _) (hparameters.mp htrimmed)
  · rintro rfl
    exact ⟨rfl, rfl, rfl, hparameters.mpr rfl⟩

end WrittenSignature

namespace Signature

theorem beq_iff_mem_singleton (c d : Char) : (d == c) = true ↔ d ∈ [c] := by
  rw [beq_iff_eq, List.mem_singleton]

/-- What is read as a signature is what is written as one. -/
theorem ofChars?_eq_some_iff {cs : List Char} {sig : Signature} :
    ofChars? cs = some sig ↔ ∃ p : WrittenSignature, p.text.toList = cs ∧ p.signature = sig := by
  unfold ofChars?
  simp only [Option.bind_eq_bind, Option.bind_eq_some_iff, Prod.exists, expect_eq_some_iff,
    Option.guard_eq_some']
  constructor
  · rintro ⟨_, rfl, className, _, hclass, _, rfl, tail, rfl, returnType, _, hreturn, tail', rfl,
      name, _, hname, list, rfl, _, hclosing, _, rfl, _, rfl, hsig⟩
    obtain ⟨isWord_className, rfl⟩ := isWord_of_wordBefore (beq_iff_mem_singleton ':') hclass
    obtain ⟨isWord_returnType, rfl⟩ := isWord_of_wordBefore (beq_iff_mem_singleton ' ') hreturn
    obtain ⟨isWord_name, rfl⟩ := isWord_of_wordBefore (beq_iff_mem_singleton '(') hname
    obtain ⟨isWord_piece, hlist⟩ := isWord_of_mem_scanPieces list
    cases hsig
    refine ⟨⟨_, _, _, (scanPieces list).1.map String.ofList, isWord_className,
      isWord_returnType, isWord_name, List.forall_mem_map.mpr isWord_piece⟩, ?_, ?_⟩
    · rw [hclosing] at hlist
      have hpieces : ((scanPieces list).1.map String.ofList).map String.toList
          = (scanPieces list).1 := by
        rw [List.map_map]
        simp [Function.comp_def]
      rw [WrittenSignature.toList_text, hpieces, ← hlist]
      simp only [String.toList_ofList]
    · simp [WrittenSignature.signature, Function.comp_def]
  · rintro ⟨p, rfl, rfl⟩
    have hlist := scanPieces_intercalate p.isWord_piece ['>']
    refine ⟨_, WrittenSignature.toList_text p, _, _,
      wordBefore_append (beq_iff_mem_singleton ':') p.isWord_className (by decide), _, rfl, _, rfl,
      _, _, wordBefore_append (beq_iff_mem_singleton ' ') p.isWord_returnType (by decide), _, rfl,
      _, _, wordBefore_append (beq_iff_mem_singleton '(') p.isWord_name (by decide), _, rfl,
      ['>'], ?_, [], rfl, (), rfl, ?_⟩
    · rw [hlist]
    · rw [hlist]
      simp [WrittenSignature.signature, Function.comp_def]

theorem parse_eq_ok_iff_parse? {text : String} {sig : Signature} :
    parse text = .ok sig ↔ parse? text = some sig := by
  unfold parse
  cases parse? text <;> simp

/-- A text is read as the signature whose form it has. -/
theorem parse_eq_ok_iff {text : String} {sig : Signature} :
    parse text = .ok sig ↔ ∃ p : WrittenSignature, p.text = text ∧ p.signature = sig := by
  rw [parse_eq_ok_iff_parse?]
  unfold parse?
  rw [ofChars?_eq_some_iff]
  simp only [String.toList_inj]

/-- A text is read as a signature just if it has the form of one, and fails to be read
otherwise.  A text that has the form of a signature has it in one way, and what is read are
the parts of this form, the parameters without the blank characters at their ends. -/
theorem parse_grammar (text : String) :
    ((∃ sig, parse text = .ok sig) ↔ ∃ p : WrittenSignature, p.text = text)
    ∧ (parse text = .error (.malformed text) ↔ ¬ ∃ p : WrittenSignature, p.text = text)
    ∧ ∀ p : WrittenSignature, p.text = text →
        (∀ q : WrittenSignature, q.text = text → q = p)
        ∧ ∃ sig, parse text = .ok sig ∧ p.IsFormOf sig := by
  have hok : (∃ sig, parse text = .ok sig) ↔ ∃ p : WrittenSignature, p.text = text := by
    simp only [parse_eq_ok_iff]
    constructor
    · rintro ⟨_, p, hp, _⟩
      exact ⟨p, hp⟩
    · rintro ⟨p, hp⟩
      exact ⟨p.signature, p, hp, rfl⟩
  have herror : parse text = .error (.malformed text) ↔ ¬ ∃ sig, parse text = .ok sig := by
    unfold parse
    cases parse? text <;> simp
  refine ⟨hok, by rw [herror, hok], fun p hp => ⟨fun q hq => ?_, p.signature, ?_, ?_⟩⟩
  · exact WrittenSignature.text_injective (hq.trans hp.symm)
  · exact parse_eq_ok_iff.mpr ⟨p, hp, rfl⟩
  · exact WrittenSignature.isFormOf_iff.mpr rfl

/-- A written signature whose parts have marks that end others. -/
def crowdedSignature : WrittenSignature where
  className := "a<b c"
  returnType := "d:<e>"
  name := "f g:)h"
  pieces := [" i ", "j k("]
  isWord_className := by decide
  isWord_returnType := by decide
  isWord_name := by decide
  isWord_piece := by decide

/-- It is read as it was written, and in no other way. -/
theorem parse_grammar_crowded :
    crowdedSignature.text = "<a<b c: d:<e> f g:)h( i ,j k()>"
    ∧ (∀ q : WrittenSignature, q.text = "<a<b c: d:<e> f g:)h( i ,j k()>" → q = crowdedSignature)
    ∧ ∃ sig, parse "<a<b c: d:<e> f g:)h( i ,j k()>" = .ok sig
      ∧ crowdedSignature.IsFormOf sig := by
  have htext : crowdedSignature.text = "<a<b c: d:<e> f g:)h( i ,j k()>" := by decide +kernel
  obtain ⟨_, _, hform⟩ := parse_grammar "<a<b c: d:<e> f g:)h( i ,j k()>"
  exact ⟨htext, hform crowdedSignature htext⟩

/-- A comma that no piece follows is no part of a signature. -/
example : (parse "<app.Main: void run(int,)>").isOk = false := by decide +kernel

end Signature

end ApiGuard
