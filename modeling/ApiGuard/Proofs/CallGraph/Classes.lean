/-
  ApiGuard.Proofs.CallGraph.Classes
  ─────────────────────────────────
  Linking constructors and the classes of the methods that are linked.

  Linking changes the edges from called constructors to the methods seen in their class, and
  no others.  A text that is no signature may have no class, though, and still count as a
  constructor.  Texts without a class are kept together like the methods of one class, so
  that such a constructor is linked to all of them:

      isLinkedAnew_iff            which edges a linking changes
      class_of_isLinkedAnew       both ends have one class, or neither is a signature
      linking_stays_in_class      the two together, for every graph that can be built
      linked_without_class        two texts without a class that are linked
-/
import ApiGuard.Proofs.CallGraph.Constructors
import ApiGuard.Proofs.Signature.Lens

namespace ApiGuard

/-! ## §1. Texts without a class. -/

namespace Signature

variable {text : String}

/-- A text that names no class is no signature. -/
theorem parse?_of_declaringClass_eq_empty (h : declaringClass text = "") :
    parse? text = none := by
  rw [Option.eq_none_iff_forall_ne_some]
  intro sig hread
  obtain ⟨p, rfl, _⟩ := parse_eq_ok_iff.mp (parse_eq_ok_iff_parse?.mpr hread)
  rw [p.text_eq_spelled, declaringClass_spelled p.isClassName.not_colon] at h
  exact p.isClassName.ne_empty h

/-- It counts as a constructor just if the name of constructors occurs in it. -/
theorem denotesConstructor_of_declaringClass_eq_empty (h : declaringClass text = "") :
    denotesConstructor text = Text.mentions text constructorName := by
  unfold denotesConstructor
  rw [parse?_of_declaringClass_eq_empty h]

end Signature

/-! ## §2. Linked edges. -/

namespace CallGraph

open Signature

variable {g : CallGraph} {a : Arc}

/-- By linking constructors the edge of the arc comes to be stored or unconditional. -/
def IsLinkedAnew (g : CallGraph) (a : Arc) : Prop :=
  (g.linkConstructors.1.IsStored a ∧ ¬ g.IsStored a)
    ∨ (∅ ∈ g.linkConstructors.1.conditionsAt a ∧ ∅ ∉ g.conditionsAt a)

/-- Changed are the arcs from constructors that were not stored, or not unconditional. -/
theorem Indexed.isLinkedAnew_iff (h : g.Indexed) :
    g.IsLinkedAnew a
      ↔ IsConstructorArc g.IsStored a ∧ (¬ g.IsStored a ∨ ∅ ∉ g.conditionsAt a) := by
  unfold IsLinkedAnew
  rw [h.isStored_linkConstructors, h.mem_conditionsAt_linkConstructors]
  grind

/-- The ends of a changed edge are a constructor and a method of its class, if it has one. -/
theorem Indexed.class_of_isLinkedAnew (h : g.Indexed) (ha : g.IsLinkedAnew a) :
    denotesConstructor a.source = true ∧ denotesConstructor a.target = false
      ∧ declaringClass a.target = declaringClass a.source := by
  obtain ⟨⟨hctor, _, hno, _, hclass⟩, _⟩ := h.isLinkedAnew_iff.mp ha
  exact ⟨hctor, hno, hclass⟩

/-- Whatever the graph is, a linking of its constructors changes just the edges from
constructors that are called to methods that are seen in it and have the same class, unless
they are there and unconditional.  The class is a name without colons, which both ends have,
or else neither end names a class.  Then neither is a signature, and the one counts as a
constructor because the name of constructors occurs in its text.  So all changed edges stay
inside classes if each constructor that is called names its class, and in particular if each
is a signature. -/
theorem linking_stays_in_class (ops : List Operation) :
    (∀ a, (built ops).IsLinkedAnew a
        ↔ IsConstructorArc (built ops).IsStored a
          ∧ (¬ (built ops).IsStored a ∨ ∅ ∉ (built ops).conditionsAt a))
    ∧ (∀ a, (built ops).IsLinkedAnew a →
        (denotesConstructor a.source = true ∧ denotesConstructor a.target = false)
        ∧ ((IsClassName (declaringClass a.source)
              ∧ declaringClass a.target = declaringClass a.source)
            ∨ ((declaringClass a.source = "" ∧ declaringClass a.target = "")
              ∧ (parse? a.source = none ∧ parse? a.target = none)
              ∧ Text.mentions a.source constructorName = true
              ∧ Text.mentions a.target constructorName = false)))
    ∧ ((∀ b, (built ops).IsStored b → denotesConstructor b.target = true →
          declaringClass b.target ≠ "") →
        ∀ a, (built ops).IsLinkedAnew a →
          declaringClass a.source ≠ "" ∧ declaringClass a.target = declaringClass a.source) := by
  have hindexed := indexed_run ops
  refine ⟨fun a => hindexed.isLinkedAnew_iff, fun a ha => ?_, fun hnamed a ha => ?_⟩
  · obtain ⟨hctor, hno, hclass⟩ := hindexed.class_of_isLinkedAnew ha
    refine ⟨⟨hctor, hno⟩, ?_⟩
    by_cases hempty : declaringClass a.source = ""
    · have htarget := hclass.trans hempty
      rw [denotesConstructor_of_declaringClass_eq_empty hempty] at hctor
      rw [denotesConstructor_of_declaringClass_eq_empty htarget] at hno
      exact .inr ⟨⟨hempty, htarget⟩, ⟨parse?_of_declaringClass_eq_empty hempty,
        parse?_of_declaringClass_eq_empty htarget⟩, hctor, hno⟩
    · obtain ⟨_, _, hname⟩ := eq_spelled hempty
      exact .inl ⟨hname, hclass⟩
  · obtain ⟨⟨hctor, ⟨b, hb, hcalled⟩, _⟩, _⟩ := hindexed.isLinkedAnew_iff.mp ha
    refine ⟨?_, (hindexed.class_of_isLinkedAnew ha).2.2⟩
    rw [← hcalled]
    exact hnamed b hb (hcalled ▸ hctor)

/-- A method calls a constructor and another method of its class, and what is no signature. -/
def timerCalls : List Operation :=
  [.record ⟨"<app.Main: void run()>", "<app.Timer: void <init>()>"⟩ ∅,
    .record ⟨"<app.Main: void run()>", "<app.Timer: void stop()>"⟩ ∅,
    .record ⟨"<app.Main: void run()>", "app.Button.click()"⟩ ∅]

/-- The constructor is linked to the method of its class. -/
theorem linking_stays_in_class_timer :
    (∀ b, (built timerCalls).IsStored b → denotesConstructor b.target = true →
        declaringClass b.target ≠ "")
    ∧ (built timerCalls).IsLinkedAnew ⟨"<app.Timer: void <init>()>", "<app.Timer: void stop()>"⟩
    ∧ declaringClass "<app.Timer: void <init>()>" ≠ ""
    ∧ declaringClass "<app.Timer: void stop()>" = declaringClass "<app.Timer: void <init>()>" := by
  obtain ⟨hanew, _, hinside⟩ := linking_stays_in_class timerCalls
  have hnamed : ∀ b, (built timerCalls).IsStored b → denotesConstructor b.target = true →
      declaringClass b.target ≠ "" := by
    rintro _ ⟨e, he, rfl⟩
    have hall : ∀ e ∈ (built timerCalls).storedEdges, denotesConstructor e.target = true →
        declaringClass e.target ≠ "" := by decide +kernel
    exact hall e he
  have hcall : ∃ e ∈ (built timerCalls).storedEdges,
      e.toArc = ⟨"<app.Main: void run()>", "<app.Timer: void <init>()>"⟩ := by decide +kernel
  have hseen : ∃ e ∈ (built timerCalls).storedEdges,
      e.toArc = ⟨"<app.Main: void run()>", "<app.Timer: void stop()>"⟩ := by decide +kernel
  have hnot : ¬ ∃ e ∈ (built timerCalls).storedEdges,
      e.toArc = ⟨"<app.Timer: void <init>()>", "<app.Timer: void stop()>"⟩ := by decide +kernel
  have hlinked : (built timerCalls).IsLinkedAnew
      ⟨"<app.Timer: void <init>()>", "<app.Timer: void stop()>"⟩ :=
    (hanew _).mpr ⟨⟨by decide +kernel, ⟨_, hcall, rfl⟩, by decide +kernel, ⟨_, hseen, .inr rfl⟩,
      by decide +kernel⟩, .inl hnot⟩
  exact ⟨hnamed, hlinked, hinside hnamed _ hlinked⟩

/-- A method calls two methods that are not written as signatures. -/
def strayCalls : List Operation :=
  [.record ⟨"<app.Main: void run()>", "app.Timer.<init>()"⟩ ∅,
    .record ⟨"<app.Main: void run()>", "app.Button.click()"⟩ ∅]

/-- The one is linked to the other, and neither has a class. -/
theorem linked_without_class :
    (built strayCalls).IsLinkedAnew ⟨"app.Timer.<init>()", "app.Button.click()"⟩
    ∧ declaringClass "app.Timer.<init>()" = "" ∧ declaringClass "app.Button.click()" = ""
    ∧ ¬ ∀ a, (built strayCalls).IsLinkedAnew a →
        declaringClass a.source ≠ "" ∧ declaringClass a.target = declaringClass a.source := by
  have hlinked : (built strayCalls).IsLinkedAnew ⟨"app.Timer.<init>()", "app.Button.click()"⟩ := by
    have hnow : ∃ e ∈ (built strayCalls).linkConstructors.1.storedEdges,
        e.toArc = ⟨"app.Timer.<init>()", "app.Button.click()"⟩ := by decide +kernel
    have hbefore : ¬ ∃ e ∈ (built strayCalls).storedEdges,
        e.toArc = ⟨"app.Timer.<init>()", "app.Button.click()"⟩ := by decide +kernel
    exact .inl ⟨hnow, hbefore⟩
  have hsource : declaringClass "app.Timer.<init>()" = "" := by decide +kernel
  have htarget : declaringClass "app.Button.click()" = "" := by decide +kernel
  exact ⟨hlinked, hsource, htarget, fun hclaim => (hclaim _ hlinked).1 hsource⟩

end CallGraph

end ApiGuard
