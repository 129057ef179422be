/-
  ApiGuard.Proofs.Signature.Lens
  ──────────────────────────────
  The class of a signature as a lens.

  The class is taken from the text of a signature without reading the rest, and is put into
  the text in the same way.  For any text, what is put in is found again, and to put in what
  was found changes nothing.  Where the text is read as a signature, the class that is found
  is the one that is read, and nothing but the class that is read changes with it:

      text_eq_spelled         a written signature is spelled with its class
      parse_inClass           another class in the text is another class in the signature
      denotesConstructor_inClass   constructors stay constructors
      inClass_lens            these laws, and those of canonical spellings
-/
import ApiGuard.Proofs.Signature.Classes
import ApiGuard.Proofs.Signature.Grammar

namespace ApiGuard

/-! ## §1. Written signatures. -/

namespace WrittenSignature

variable {p : WrittenSignature} {c : String}

/-- The class that a signature is written with is one that can be found. -/
theorem isClassName (p : WrittenSignature) : Signature.IsClassName p.className where
  ne_empty := p.isWord_className.ne_empty
  not_colon := p.isWord_className.not_mem ':' (by decide)

/-- What follows the colon after the class. -/
def afterClass (p : WrittenSignature) : List Char :=
  ' ' :: (p.returnType.toList ++ ' ' :: (p.name.toList ++ '(' ::
    ([','].intercalate (p.pieces.map String.toList) ++ [')', '>'])))

/-- A written signature is spelled with its class. -/
theorem text_eq_spelled (p : WrittenSignature) :
    p.text = Signature.spelled p.className p.afterClass := by
  rw [← String.toList_inj, toList_text, Signature.toList_spelled]
  rfl

/-- The same signature written with another class. -/
def withClass (p : WrittenSignature) (hc : Signature.IsClassName c) : WrittenSignature :=
  { p with
    className := c
    isWord_className := ⟨hc.ne_empty, List.forall_mem_singleton.mpr hc.not_colon⟩ }

theorem text_withClass (hc : Signature.IsClassName c) :
    (p.withClass hc).text = Signature.inClass p.text c := by
  rw [text_eq_spelled, text_eq_spelled p, Signature.inClass_spelled p.isClassName]
  rfl

end WrittenSignature

/-! ## §2. The lens. -/

namespace Signature

variable {text c : String} {sig : Signature}

/-- The class that is found is the one that is read. -/
theorem declaringClass_of_parse (hread : parse text = .ok sig) :
    declaringClass text = sig.className := by
  obtain ⟨p, rfl, rfl⟩ := parse_eq_ok_iff.mp hread
  rw [p.text_eq_spelled, declaringClass_spelled p.isClassName.not_colon]
  rfl

/-- Another class in the text is another class in the signature that is read. -/
theorem parse_inClass (hread : parse text = .ok sig) (hc : IsClassName c) :
    parse (inClass text c) = .ok { sig with className := c } := by
  obtain ⟨p, rfl, rfl⟩ := parse_eq_ok_iff.mp hread
  exact parse_eq_ok_iff.mpr ⟨p.withClass hc, p.text_withClass hc, rfl⟩

theorem denotesConstructor_of_parse (hread : parse text = .ok sig) :
    denotesConstructor text = sig.isConstructor := by
  unfold denotesConstructor
  rw [parse_eq_ok_iff_parse?.mp hread]

/-- Whether a signature is a constructor does not depend on its class. -/
theorem denotesConstructor_inClass (hread : parse text = .ok sig) (hc : IsClassName c) :
    denotesConstructor (inClass text c) = denotesConstructor text := by
  rw [denotesConstructor_of_parse (parse_inClass hread hc), denotesConstructor_of_parse hread]
  rfl

/-- For any text, to put in the class that is found changes nothing.  If a class is found,
the one that is put in is found again, and only the last one put in counts.

If the text is read as a signature, the class that is found is the one that is read, and
after another one is put in the signature is read with this class and is otherwise the same,
a constructor or not as it was.

The class found in a canonical spelling is the canonical one, and one that is put into a
canonical spelling gives the canonical spelling of the text with the class put in. -/
theorem inClass_lens (text : String) :
    inClass text (declaringClass text) = text
    ∧ (∀ c d, declaringClass text ≠ "" → IsClassName c →
        declaringClass (inClass text c) = c ∧ inClass (inClass text c) d = inClass text d)
    ∧ (∀ sig, parse text = .ok sig →
        declaringClass text = sig.className
        ∧ ∀ c, IsClassName c →
            parse (inClass text c) = .ok { sig with className := c }
            ∧ denotesConstructor (inClass text c) = denotesConstructor text)
    ∧ declaringClass (canonical text) = canonical (declaringClass text)
    ∧ ∀ c, canonical (inClass text c) = inClass (canonical text) (canonical c) := by
  refine ⟨inClass_declaringClass text, fun c d hclass hc => ⟨?_, ?_⟩, fun sig hread => ⟨?_, ?_⟩,
    declaringClass_canonical text, canonical_inClass text⟩
  · exact declaringClass_inClass hclass hc.not_colon
  · exact inClass_inClass hc text d
  · exact declaringClass_of_parse hread
  · intro c hc
    exact ⟨parse_inClass hread hc, denotesConstructor_inClass hread hc⟩

/-- A constructor of a nested class becomes one of another class, and back. -/
theorem inClass_lens_builder :
    declaringClass "<app.Note$Builder: void <init>(int)>" ≠ ""
    ∧ parse "<app.Note$Builder: void <init>(int)>"
      = .ok ⟨"app.Note$Builder", "void", "<init>", ["int"]⟩
    ∧ IsClassName "app.Main$Notifier"
    ∧ declaringClass (inClass "<app.Note$Builder: void <init>(int)>" "app.Main$Notifier")
      = "app.Main$Notifier"
    ∧ inClass (inClass "<app.Note$Builder: void <init>(int)>" "app.Main$Notifier")
        "app.Note$Builder"
      = "<app.Note$Builder: void <init>(int)>"
    ∧ parse (inClass "<app.Note$Builder: void <init>(int)>" "app.Main$Notifier")
      = .ok ⟨"app.Main$Notifier", "void", "<init>", ["int"]⟩
    ∧ denotesConstructor (inClass "<app.Note$Builder: void <init>(int)>" "app.Main$Notifier")
      = true := by
  have hfound : declaringClass "<app.Note$Builder: void <init>(int)>" = "app.Note$Builder" := by
    decide +kernel
  have hread : parse "<app.Note$Builder: void <init>(int)>"
      = .ok ⟨"app.Note$Builder", "void", "<init>", ["int"]⟩ := by
    decide +kernel
  have hname : IsClassName "app.Main$Notifier" := ⟨by decide, by decide⟩
  have hne : declaringClass "<app.Note$Builder: void <init>(int)>" ≠ "" := by
    rw [hfound]
    decide
  obtain ⟨hsame, hput, hsig, _⟩ := inClass_lens "<app.Note$Builder: void <init>(int)>"
  obtain ⟨hgot, hlast⟩ := hput "app.Main$Notifier" "app.Note$Builder" hne hname
  obtain ⟨_, hparts⟩ := hsig _ hread
  obtain ⟨hparse, hconstructor⟩ := hparts "app.Main$Notifier" hname
  refine ⟨hne, hread, hname, hgot, ?_, hparse, ?_⟩
  · rw [hlast, ← hfound, hsame]
  · rw [hconstructor]
    decide +kernel

end Signature

end ApiGuard
