/-
  ApiGuard.Proofs.Signature.Printing
  ──────────────────────────────────
  Signatures that are printed after they were read.

  Reading drops the blank characters around the pieces of a parameter list and keeps all
  else.  So the text that was read is printed again just if no piece has a blank character at
  an end.  What is printed is read as the same signature unless a piece is blank as a whole,
  since nothing is left of it that could be read as a piece:

      render_signature_eq_iff   what was written is printed again
      parse_render_iff          what is printed is read as the same signature
      render_parse              both, for each text that is read
-/
import ApiGuard.Proofs.Signature.Grammar

namespace ApiGuard

open Text

/-! ## §1. Trimmed pieces. -/

/-- Trimming the pieces of a list changes its text unless no piece has a blank character at
an end. -/
theorem intercalate_trim_eq_iff {pieces : List (List Char)}
    (hcomma : ∀ piece ∈ pieces, ',' ∉ piece) :
    [','].intercalate (pieces.map trim) = [','].intercalate pieces
      ↔ ∀ piece ∈ pieces, IsTight piece := by
  have hmap : pieces.map trim = pieces ↔ ∀ piece ∈ pieces, IsTight piece := by
    simp only [← trim_eq_self_iff]
    exact (Iff.of_eq (by rw [List.map_id])).trans (List.map_inj_left (g := id))
  rw [← hmap]
  refine ⟨fun heq => ?_, congrArg _⟩
  by_cases hnil : pieces = []
  · rw [hnil, List.map_nil]
  · -- the commas cut both texts into their pieces
    have htrimmed : ∀ piece ∈ pieces.map trim, ',' ∉ piece := by
      refine List.forall_mem_map.mpr fun piece hpiece hmem => ?_
      exact hcomma piece hpiece ((sublist_trim piece).subset hmem)
    have hcut := congrArg (List.splitOn ',') heq
    rwa [List.splitOn_intercalate _ htrimmed (by rwa [Ne, List.map_eq_nil_iff]),
      List.splitOn_intercalate _ hcomma hnil] at hcut

namespace WrittenSignature

variable {p : WrittenSignature}

theorem map_toList_parameters (p : WrittenSignature) :
    p.signature.parameters.map String.toList = (p.pieces.map String.toList).map trim := by
  simp [signature, Function.comp_def]

/-- What was written is printed again just if no piece has a blank character at an end. -/
theorem render_signature_eq_iff :
    p.signature.render = p.text ↔ ∀ piece ∈ p.pieces, IsTight piece.toList := by
  have hcomma : ∀ piece ∈ p.pieces.map String.toList, ',' ∉ piece :=
    List.forall_mem_map.mpr fun piece hpiece =>
      (p.isWord_piece piece hpiece).not_mem ',' (by decide)
  have htight : (∀ piece ∈ p.pieces, IsTight piece.toList)
      ↔ ∀ piece ∈ p.pieces.map String.toList, IsTight piece := List.forall_mem_map.symm
  rw [htight, ← intercalate_trim_eq_iff hcomma, ← map_toList_parameters, ← String.toList_inj,
    Signature.toList_render, toList_text]
  -- the other parts are the same in both texts
  simp [signature]

/-- A parameter is empty just if its piece is blank as a whole. -/
theorem empty_mem_parameters_iff :
    "" ∈ p.signature.parameters ↔ ∃ piece ∈ p.pieces, ∀ c ∈ piece.toList, isBlank c = true := by
  show "" ∈ p.pieces.map _ ↔ _
  simp only [List.mem_map, String.ofList_eq_empty_iff, trim_eq_nil_iff]

/-- The signature as it is printed, if there is something left of each piece. -/
def trimmed (p : WrittenSignature) (h : ∀ parameter ∈ p.signature.parameters, parameter ≠ "") :
    WrittenSignature :=
  { p with
    pieces := p.signature.parameters
    isWord_piece := by
      intro parameter hparameter
      refine ⟨h parameter hparameter, fun c hc hmem => ?_⟩
      obtain ⟨piece, hpiece, rfl⟩ := List.mem_map.mp hparameter
      rw [String.toList_ofList] at hmem
      exact (p.isWord_piece piece hpiece).not_mem c hc ((sublist_trim _).subset hmem) }

theorem signature_trimmed (h : ∀ parameter ∈ p.signature.parameters, parameter ≠ "") :
    (p.trimmed h).signature = p.signature := by
  have hparameters : (p.signature.parameters.map fun piece => String.ofList (trim piece.toList))
      = p.signature.parameters := by
    simp [signature, trim_trim, Function.comp_def]
  exact congrArg (Signature.mk p.className p.returnType p.name) hparameters

/-- A piece that is its own parameter is not empty. -/
theorem ne_empty_of_render_eq (h : p.signature.render = p.text) :
    ∀ parameter ∈ p.signature.parameters, parameter ≠ "" := by
  rintro parameter hparameter rfl
  obtain ⟨piece, hpiece, hblank⟩ := empty_mem_parameters_iff.mp hparameter
  have htight := trim_eq_self_iff.mpr (render_signature_eq_iff.mp h piece hpiece)
  rw [trim_eq_nil_iff.mpr hblank, eq_comm, String.toList_eq_nil_iff] at htight
  exact (p.isWord_piece piece hpiece).ne_empty htight

/-- What is printed for a written signature is read as the same signature just if no
parameter is empty. -/
theorem parse_render_iff :
    Signature.parse p.signature.render = .ok p.signature
      ↔ ∀ parameter ∈ p.signature.parameters, parameter ≠ "" := by
  constructor
  · intro hread
    -- what is read is written in some way, and it is printed as it was written
    obtain ⟨q, htext, hsig⟩ := Signature.parse_eq_ok_iff.mp hread
    rw [← hsig]
    exact ne_empty_of_render_eq (by rw [hsig, htext])
  · intro h
    exact Signature.parse_eq_ok_iff.mpr ⟨p.trimmed h, rfl, signature_trimmed h⟩

end WrittenSignature

/-! ## §2. Printing and reading. -/

namespace Signature

/-- Whatever text a signature is read from, the text that is printed for it is read as the
same signature just if no parameter is empty, and it is the text that was read just if no
piece of that text starts or ends with a blank character.  A parameter is empty just if its
piece has nothing but blank characters. -/
theorem render_parse {text : String} {sig : Signature} (hread : parse text = .ok sig) :
    (parse sig.render = .ok sig ↔ ∀ parameter ∈ sig.parameters, parameter ≠ "")
    ∧ ∃ p : WrittenSignature, p.text = text ∧ p.IsFormOf sig
      ∧ (sig.render = text ↔ ∀ piece ∈ p.pieces, IsTight piece.toList)
      ∧ ("" ∈ sig.parameters ↔ ∃ piece ∈ p.pieces, ∀ c ∈ piece.toList, isBlank c = true) := by
  obtain ⟨p, rfl, rfl⟩ := parse_eq_ok_iff.mp hread
  exact ⟨WrittenSignature.parse_render_iff, p, rfl, WrittenSignature.isFormOf_iff.mpr rfl,
    WrittenSignature.render_signature_eq_iff, WrittenSignature.empty_mem_parameters_iff⟩

/-- The text of one signature is not printed again but what is printed is read as the same
signature; that of the other is printed with an empty list, which is read as no parameter. -/
theorem render_parse_run :
    (∃ sig, parse "<app.Main: void run(int, long)>" = .ok sig
      ∧ sig.render ≠ "<app.Main: void run(int, long)>" ∧ parse sig.render = .ok sig)
    ∧ ∃ sig, parse "<app.Main: void run( )>" = .ok sig ∧ parse sig.render ≠ .ok sig := by
  constructor
  · have hread : parse "<app.Main: void run(int, long)>"
        = .ok ⟨"app.Main", "void", "run", ["int", "long"]⟩ := by
      decide +kernel
    obtain ⟨hsame, _⟩ := render_parse hread
    exact ⟨_, hread, by decide +kernel, hsame.mpr (by decide)⟩
  · have hread : parse "<app.Main: void run( )>" = .ok ⟨"app.Main", "void", "run", [""]⟩ := by
      decide +kernel
    obtain ⟨hsame, _⟩ := render_parse hread
    exact ⟨_, hread, fun h => hsame.mp h "" List.mem_cons_self rfl⟩

end Signature

end ApiGuard
