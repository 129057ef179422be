/-
  ApiGuard.Proofs.Signature.Classes
  ─────────────────────────────────
  The declaring class of a signature, and its replacement by another.

  A signature that names its class is `spelled`: the class and what follows it from its
  colon on.  The class can be taken off such a text and another one can be put in its
  place, and nothing else changes.  Both can be done before or after dollar signs are
  replaced by dots:

      eq_spelled               a text whose class is named is spelled with it
      declaringClass_inClass   the class put in is the class found
      inClass_inClass          only the class put in last counts
      declaringClass_canonical the class of a canonical spelling is the canonical one
      canonical_inClass        classes are replaced in canonical spellings as in others
-/
import ApiGuard.Proofs.Text.Scan
import ApiGuard.Signature

namespace ApiGuard.Signature

/-! ## §1. Spelled signatures. -/

/-- The signature of a class, given what follows it after the colon. -/
def spelled (className : String) (rest : List Char) : String :=
  "<" ++ className ++ String.ofList (':' :: rest)

/-- The name can be the class of a signature: it has characters, and none is a colon. -/
structure IsClassName (name : String) : Prop where
  ne_empty : name ≠ ""
  not_colon : ':' ∉ name.toList

variable {text c d : String} {rest : List Char}

theorem toList_spelled (c : String) (rest : List Char) :
    (spelled c rest).toList = '<' :: (c.toList ++ ':' :: rest) := by
  unfold spelled
  simp

/-- The class is found again, unless it has a colon of its own. -/
theorem declaringClass_spelled (hc : ':' ∉ c.toList) (rest : List Char) :
    declaringClass (spelled c rest) = c := by
  unfold declaringClass
  rw [toList_spelled]
  show (if ':' ∈ c.toList ++ ':' :: rest then _ else _) = c
  rw [if_pos (by simp), Text.takeWhile_ne_append hc, String.ofList_toList]

/-- There is a bracket in front, and a colon after it. -/
def HasClass (text : String) : Prop := ∃ tail, text.toList = '<' :: tail ∧ ':' ∈ tail

/-- The class goes up to the first colon. -/
theorem HasClass.exists_spelled (h : HasClass text) :
    ∃ c rest, ':' ∉ c.toList ∧ text = spelled c rest := by
  obtain ⟨tail, htext, hcolon⟩ := h
  obtain ⟨c, rest, rfl, hc⟩ := List.eq_append_cons_of_mem hcolon
  refine ⟨String.ofList c, rest, by rwa [String.toList_ofList], ?_⟩
  rw [← String.toList_inj, toList_spelled, htext, String.toList_ofList]

theorem declaringClass_of_not_hasClass (h : ¬ HasClass text) : declaringClass text = "" := by
  unfold declaringClass
  split
  next tail htext => exact if_neg fun hcolon => h ⟨tail, htext, hcolon⟩
  next => rfl

/-- A text whose class is named is spelled with it. -/
theorem eq_spelled (h : declaringClass text ≠ "") :
    ∃ rest, text = spelled (declaringClass text) rest
      ∧ IsClassName (declaringClass text) := by
  by_cases hhas : HasClass text
  · obtain ⟨c, rest, hc, rfl⟩ := hhas.exists_spelled
    rw [declaringClass_spelled hc] at h ⊢
    exact ⟨rest, rfl, h, hc⟩
  · exact absurd (declaringClass_of_not_hasClass hhas) h

/-! ## §2. Another class. -/

/-- What follows the class stays as it is. -/
theorem inClass_spelled (hc : IsClassName c) (rest : List Char) (d : String) :
    inClass (spelled c rest) d = spelled d rest := by
  have hnot : ':' ∉ '<' :: c.toList := by
    simp [hc.not_colon]
  unfold inClass
  rw [declaringClass_spelled hc.not_colon, if_neg hc.ne_empty, toList_spelled,
    ← List.cons_append, Text.dropWhile_ne_append hnot]
  rfl

/-- A text that names no class stays. -/
theorem inClass_of_eq_empty (h : declaringClass text = "") (c : String) :
    inClass text c = text := if_pos h

/-- The class put in is the class found. -/
theorem declaringClass_inClass (h : declaringClass text ≠ "") (hc : ':' ∉ c.toList) :
    declaringClass (inClass text c) = c := by
  obtain ⟨rest, htext, hclass⟩ := eq_spelled h
  rw [htext, inClass_spelled hclass, declaringClass_spelled hc]

/-- Only the class put in last counts. -/
theorem inClass_inClass (hc : IsClassName c) (text d : String) :
    inClass (inClass text c) d = inClass text d := by
  by_cases h : declaringClass text = ""
  · rw [inClass_of_eq_empty h]
  · obtain ⟨rest, htext, hclass⟩ := eq_spelled h
    rw [htext, inClass_spelled hclass, inClass_spelled hc, inClass_spelled hclass]

/-- With its own class in place a text is as it was. -/
theorem inClass_declaringClass (text : String) : inClass text (declaringClass text) = text := by
  by_cases h : declaringClass text = ""
  · exact inClass_of_eq_empty h _
  · obtain ⟨rest, htext, hclass⟩ := eq_spelled h
    rw [htext, declaringClass_spelled hclass.not_colon, inClass_spelled hclass]

/-- Different classes give different signatures. -/
theorem inClass_injective (h : declaringClass text ≠ "") (hcd : inClass text c = inClass text d) :
    c = d := by
  obtain ⟨rest, htext, hclass⟩ := eq_spelled h
  rw [htext, inClass_spelled hclass, inClass_spelled hclass, ← String.toList_inj, toList_spelled,
    toList_spelled] at hcd
  exact String.toList_inj.mp (List.append_cancel_right (List.cons.inj hcd).2)

/-! ## §3. Canonical spellings. -/

/-- A canonical signature is its own canonical spelling. -/
theorem canonical_canonical (text : String) :
    canonical (canonical text) = canonical text := by
  unfold canonical Text.replaceChar
  rw [String.map_map]
  congr 1
  funext c
  by_cases hc : c = '$' <;> simp [hc]

theorem toList_canonical (text : String) :
    (canonical text).toList = text.toList.map fun a => if a = '$' then '.' else a := by
  unfold canonical Text.replaceChar
  exact String.toList_map

/-- No dollar sign is left in a canonical spelling. -/
theorem dollar_not_mem_canonical (text : String) : '$' ∉ (canonical text).toList := by
  rw [toList_canonical, List.mem_map]
  intro hmem
  obtain ⟨a, _, ha⟩ := hmem
  split at ha
  next => cases ha
  next hne => exact hne ha

/-- The class and what follows it have their canonical spellings apart. -/
theorem canonical_spelled (c : String) (rest : List Char) :
    canonical (spelled c rest)
      = spelled (canonical c) (rest.map fun a => if a = '$' then '.' else a) := by
  rw [← String.toList_inj]
  simp [toList_canonical, toList_spelled]

/-- A mark of a canonical spelling that is no dot is one of the text. -/
theorem eq_of_canonical_eq {a mark : Char} (hmark : mark ≠ '.')
    (h : (if a = '$' then '.' else a) = mark) : a = mark := by
  split at h
  next => exact absurd h.symm hmark
  next => exact h

theorem colon_not_mem_canonical (hc : ':' ∉ c.toList) : ':' ∉ (canonical c).toList := by
  rw [toList_canonical, List.mem_map]
  rintro ⟨a, ha, heq⟩
  exact hc (eq_of_canonical_eq (by decide) heq ▸ ha)

theorem canonical_eq_empty_iff : canonical c = "" ↔ c = "" := by
  rw [← String.toList_inj, toList_canonical, ← String.toList_inj]
  exact List.map_eq_nil_iff

/-- Neither a dollar sign nor a dot is a colon. -/
theorem IsClassName.canonical (hc : IsClassName c) : IsClassName (canonical c) where
  ne_empty := canonical_eq_empty_iff.not.mpr hc.ne_empty
  not_colon := colon_not_mem_canonical hc.not_colon

theorem HasClass.of_canonical (h : HasClass (Signature.canonical text)) : HasClass text := by
  obtain ⟨tail, htext, hcolon⟩ := h
  rw [toList_canonical] at htext
  obtain ⟨a, rest, htext, ha, rfl⟩ := List.map_eq_cons_iff.mp htext
  obtain ⟨b, hb, hcolon⟩ := List.mem_map.mp hcolon
  obtain rfl := eq_of_canonical_eq (by decide) ha
  obtain rfl := eq_of_canonical_eq (by decide) hcolon
  exact ⟨rest, htext, hb⟩

/-- The class of a canonical spelling is the canonical one. -/
theorem declaringClass_canonical (text : String) :
    declaringClass (canonical text) = canonical (declaringClass text) := by
  by_cases h : HasClass text
  · obtain ⟨c, rest, hc, rfl⟩ := h.exists_spelled
    rw [canonical_spelled, declaringClass_spelled (colon_not_mem_canonical hc),
      declaringClass_spelled hc]
  · rw [declaringClass_of_not_hasClass h,
      declaringClass_of_not_hasClass fun hcanonical => h hcanonical.of_canonical,
      canonical_eq_empty_iff.mpr rfl]

/-- A class is replaced in a canonical spelling as in any other. -/
theorem canonical_inClass (text c : String) :
    canonical (inClass text c) = inClass (canonical text) (canonical c) := by
  by_cases h : declaringClass text = ""
  · have hcanonical : declaringClass (canonical text) = "" := by
      rw [declaringClass_canonical, canonical_eq_empty_iff, h]
    rw [inClass_of_eq_empty h, inClass_of_eq_empty hcanonical]
  · obtain ⟨rest, htext, hclass⟩ := eq_spelled h
    rw [htext, inClass_spelled hclass, canonical_spelled, canonical_spelled,
      inClass_spelled hclass.canonical]

theorem declaringClass_canonical_inClass (h : declaringClass text ≠ "") (hc : IsClassName c) :
    declaringClass (canonical (inClass text c)) = canonical c := by
  rw [declaringClass_canonical, declaringClass_inClass h hc.not_colon]

end ApiGuard.Signature
