/-
  ApiGuard.Proofs.Bundle.Classes
  ──────────────────────────────
  The hierarchy of the classes that a bundle declares.

  All classes are inserted before any of them gets a parent, so that no link fails.  Linked
  are then the classes that some declaration links, and those without a parent to the class
  above all others.  This is said of the set of declarations, in whatever units and order
  they stand, and however often:

      exists_hierarchy    every bundle has a hierarchy, the one that its declarations say
      loading_exact       what is loaded from a document, and what its classes inherit
-/
import ApiGuard.Proofs.Body.Graph
import ApiGuard.Proofs.Bundle.Loading
import ApiGuard.Proofs.Hierarchy.Declarations

namespace ApiGuard

/-! ## §1. Declared links. -/

namespace Bundle

/-- Some declaration gives the class this parent. -/
def Declares (classes : List ClassDecl) (child parent : String) : Prop :=
  ∃ c ∈ classes, c.name = child ∧ (c.superclass = some parent ∨ parent ∈ c.interfaces)

/-- The class is declared, or some declaration names it as a parent. -/
def Mentions (classes : List ClassDecl) (name : String) : Prop :=
  (∃ c ∈ classes, c.name = name) ∨ ∃ child, Declares classes child name

/-- The class is linked to the parent by a declaration, or, as it has no parent in any, to
the class above all others. -/
def Inherits (classes : List ClassDecl) (child parent : String) : Prop :=
  Declares classes child parent
    ∨ (Mentions classes child ∧ (∀ other, ¬ Declares classes child other)
        ∧ child ≠ objectClass ∧ parent = objectClass)

variable {classes classes' : List ClassDecl} {child parent : String}

theorem exists_mem_linksOf_iff {c : ClassDecl} :
    (∃ l ∈ linksOf c, l.child = child ∧ l.parent = parent)
      ↔ c.name = child ∧ (c.superclass = some parent ∨ parent ∈ c.interfaces) := by
  unfold linksOf
  simp only [List.mem_append, Option.mem_toList, Option.map_eq_some_iff, List.mem_map]
  constructor
  · intro hlink
    obtain ⟨_, ⟨p, hp, rfl⟩ | ⟨p, hp, rfl⟩, rfl, rfl⟩ := hlink
    · exact ⟨rfl, .inl hp⟩
    · exact ⟨rfl, .inr hp⟩
  · intro hlink
    obtain ⟨rfl, hp | hp⟩ := hlink
    · exact ⟨_, .inl ⟨parent, hp, rfl⟩, rfl, rfl⟩
    · exact ⟨_, .inr ⟨parent, hp, rfl⟩, rfl, rfl⟩

theorem child_of_mem_linksOf {c : ClassDecl} {l : Link} (h : l ∈ linksOf c) :
    l.child = c.name :=
  (exists_mem_linksOf_iff.mp ⟨l, h, rfl, rfl⟩).1.symm

/-- The links of all declarations are those that they declare. -/
theorem exists_mem_links_iff :
    (∃ l ∈ classes.flatMap linksOf, l.child = child ∧ l.parent = parent)
      ↔ Declares classes child parent := by
  unfold Declares
  simp only [← exists_mem_linksOf_iff, List.mem_flatMap]
  constructor
  · intro hlink
    obtain ⟨l, ⟨c, hc, hl⟩, hends⟩ := hlink
    exact ⟨c, hc, l, hl, hends⟩
  · intro hlink
    obtain ⟨c, hc, l, hl, hends⟩ := hlink
    exact ⟨l, ⟨c, hc, hl⟩, hends⟩

/-- The parents in the links are those that some declaration gives. -/
theorem exists_mem_links_parent_iff :
    (∃ l ∈ classes.flatMap linksOf, l.parent = parent)
      ↔ ∃ child, Declares classes child parent := by
  simp only [← exists_mem_links_iff]
  constructor
  · intro hl
    obtain ⟨l, hl, hparent⟩ := hl
    exact ⟨l.child, l, hl, rfl, hparent⟩
  · intro hl
    obtain ⟨_, l, hl, _, hparent⟩ := hl
    exact ⟨l, hl, hparent⟩

/-! ## §2. The hierarchy of a bundle. -/

/-- Every bundle has a hierarchy.  The declared classes are defined in it, and linked are the
classes that inherit by the declarations. -/
theorem exists_hierarchy (b : Bundle) :
    ∃ h, b.hierarchy = .ok h
      ∧ (∀ name, h.IsDefined name ↔ ∃ c ∈ b.classes, c.name = name)
      ∧ ∀ child parent, h.IsLinked child parent ↔ Inherits b.classes child parent := by
  have hmap : ∀ name, name ∈ b.classes.map (·.name) ↔ ∃ c ∈ b.classes, c.name = name :=
    fun name => List.mem_map
  obtain ⟨hnames, hdefined, hnolink⟩ := Hierarchy.foldl_define_empty (b.classes.map (·.name))
  -- every class that gets a parent has come up before
  have hknown : ∀ l ∈ b.classes.flatMap linksOf,
      l.child ∈ ((b.classes.map (·.name)).foldl Hierarchy.define ∅).names := by
    intro l hl
    obtain ⟨c, hc, hl⟩ := List.mem_flatMap.mp hl
    rw [hnames, child_of_mem_linksOf hl]
    exact List.mem_map_of_mem hc
  obtain ⟨h, hfold, hgains⟩ := Hierarchy.exists_foldlM_link _ _ hknown
  have hlinks : ∀ child parent, h.IsLinked child parent ↔ Declares b.classes child parent := by
    intro child parent
    rw [hgains.linked, or_iff_right (hnolink child parent), exists_mem_links_iff]
  have hmentions : ∀ name, name ∈ h.names ↔ Mentions b.classes name := by
    intro name
    rw [hgains.names, hnames, hmap, exists_mem_links_parent_iff]
    rfl
  refine ⟨h.close, ?_, fun name => ?_, fun child parent => ?_⟩
  · unfold hierarchy
    rw [List.foldl_map] at hfold
    simp only [hfold]
    rfl
  · rw [Hierarchy.isDefined_close, hgains.defined, hdefined, hmap]
  · rw [Hierarchy.isLinked_close]
    simp only [hlinks, hmentions]
    rfl

/-! ## §3. The same declarations. -/

/-- What classes inherit is said by the set of declarations. -/
theorem inherits_congr (hsame : ∀ c, c ∈ classes ↔ c ∈ classes') :
    Inherits classes child parent ↔ Inherits classes' child parent := by
  unfold Inherits Mentions Declares
  simp only [hsame]

end Bundle

namespace BundleDocument

/-- All declared classes, unit by unit. -/
def classes (d : BundleDocument) : List ClassDecl := d.units.flatMap (·.classes)

variable {d d' : BundleDocument} {b : Bundle}

/-- A loaded bundle has the classes of its document. -/
theorem classes_of_loadsAs {us : List UnitDecl} {loaded : List BytecodeUnit}
    (h : List.Forall₂ UnitDecl.LoadsAs us loaded) :
    loaded.flatMap (·.classes) = (us.flatMap (·.classes)).map ClassDecl.withoutBodies := by
  induction h with
  | nil => rfl
  | cons hloads _ ih =>
      rw [List.flatMap_cons, List.flatMap_cons, List.map_append, hloads.classes, ih]

theorem classes_of_ofDocument (h : Bundle.ofDocument d = .ok b) :
    b.classes = d.classes.map ClassDecl.withoutBodies :=
  classes_of_loadsAs (Bundle.ofDocument_eq_ok_iff.mp h).2.2

/-- The documents have the same declarations of classes, each as often, in whatever units
and order. -/
def IsRearranged (d d' : BundleDocument) : Prop := d.classes.Perm d'.classes

/-- No method is faulty because of the place of its class. -/
theorem exists_ofDocument_of_isRearranged (hsame : IsRearranged d d') (hne : d'.units ≠ [])
    (h : Bundle.ofDocument d = .ok b) : ∃ b', Bundle.ofDocument d' = .ok b' := by
  have hmethods : ∀ (d : BundleDocument), (∀ u ∈ d.units, ∀ m ∈ u.methods, ¬ m.IsFaulty)
      ↔ ∀ c ∈ d.classes, ∀ m ∈ c.methods, ¬ m.IsFaulty := by
    intro d
    unfold classes UnitDecl.methods
    simp only [List.mem_flatMap]
    constructor
    · intro hall c hc m hm
      obtain ⟨u, hu, hc⟩ := hc
      exact hall u hu m ⟨c, hc, hm⟩
    · intro hall u hu m hm
      obtain ⟨c, hc, hm⟩ := hm
      exact hall c ⟨u, hu, hc⟩ m hm
  rw [Bundle.exists_ofDocument_eq_ok_iff hne, hmethods]
  have hunits : d.units ≠ [] := by
    intro hnil
    rw [Bundle.ofDocument_eq_noUnit_iff.mpr ⟨hnil, rfl⟩] at h
    cases h
  intro c hc
  exact (hmethods d).mp ((Bundle.exists_ofDocument_eq_ok_iff hunits).mp ⟨b, h⟩) c
    (hsame.mem_iff.mpr hc)

/-! ## §4. Loading. -/

/-- A document from a text is loaded as follows.  It has no unit just if that is the error.
Otherwise there is an error just if some method has statements that are empty, repeat a label
or name an unknown one, and it is the fault of such a method in the first unit that has one.

A bundle has the units of its document in order, with their classes and, in the order of the
methods, the one body that is built of the statements of each method that has some.  It has a
hierarchy in which just the declared classes are defined.  And if the declarations of classes
are permuted, within units, with their units or between them, each class keeps its
descendants and its ancestors. -/
theorem loading_exact (d : BundleDocument) :
    (∀ text, parse? text = some d → Bundle.parse text = Bundle.ofDocument d)
    ∧ (∀ name, Bundle.ofDocument d = .error (.noUnit name) ↔ d.units = [] ∧ name = d.name)
    ∧ (d.units ≠ [] →
        ((∃ e, Bundle.ofDocument d = .error e) ↔ ∃ u ∈ d.units, ∃ m ∈ u.methods, m.IsFaulty)
        ∧ ∀ e, Bundle.ofDocument d = .error e →
            ∃ (fault : BodyError) (i : Nat) (u : UnitDecl), e = .body fault
              ∧ d.units[i]? = some u ∧ (∃ m ∈ u.methods, m.HasFault fault)
              ∧ ∀ j < i, ∀ v, d.units[j]? = some v → ∀ m ∈ v.methods, ¬ m.IsFaulty)
    ∧ (∀ b, Bundle.ofDocument d = .ok b →
        b.name = d.name ∧ b.manifest = d.manifest
        ∧ List.Forall₂ UnitDecl.LoadsAs d.units b.units
        ∧ ∃ h, b.hierarchy = .ok h
          ∧ (∀ name, h.IsDefined name ↔ ∃ c ∈ d.classes, c.name = name)
          ∧ ∀ d', IsRearranged d d' → d'.units ≠ [] →
              ∃ b' h', Bundle.ofDocument d' = .ok b' ∧ b'.hierarchy = .ok h'
                ∧ ∀ name, h'.subtypes name = h.subtypes name
                  ∧ ∀ ancestor, ancestor ∈ h'.ancestors name ↔ ancestor ∈ h.ancestors name) := by
  refine ⟨fun text htext => ?_, fun name => Bundle.ofDocument_eq_noUnit_iff, fun hne =>
    ⟨?_, fun e => Bundle.first_fault_of_ofDocument hne⟩, fun b hb => ?_⟩
  · unfold Bundle.parse
    rw [htext]
  · have hok := Bundle.exists_ofDocument_eq_ok_iff hne
    cases hload : Bundle.ofDocument d with
    | error e => simpa [hload] using hok
    | ok b => simpa [hload] using hok
  · obtain ⟨hname, hmanifest, hunits⟩ := Bundle.ofDocument_eq_ok_iff.mp hb
    obtain ⟨h, hhierarchy, hdefined, hlinked⟩ := Bundle.exists_hierarchy b
    refine ⟨hname, hmanifest, hunits, h, hhierarchy, fun name => ?_, fun d' hsame hne => ?_⟩
    · rw [hdefined, classes_of_ofDocument hb]
      simp [ClassDecl.withoutBodies]
    · obtain ⟨b', hb'⟩ := exists_ofDocument_of_isRearranged hsame hne hb
      obtain ⟨h', hhierarchy', _, hlinked'⟩ := Bundle.exists_hierarchy b'
      have hclasses : ∀ c, c ∈ b'.classes ↔ c ∈ b.classes := by
        intro c
        rw [classes_of_ofDocument hb', classes_of_ofDocument hb]
        exact (hsame.symm.map _).mem_iff
      have hlinks : ∀ c p, h'.IsLinked c p ↔ h.IsLinked c p := by
        intro c p
        rw [hlinked', hlinked, Bundle.inherits_congr hclasses]
      exact ⟨b', h', hb', hhierarchy', fun name =>
        ⟨Hierarchy.subtypes_congr hlinks name, fun _ => Hierarchy.mem_ancestors_congr hlinks⟩⟩

/-- A class with a method that retries a call and one that is native. -/
def mainClass : ClassDecl where
  name := "app.Main"
  superclass := some "app.Base"
  interfaces := ["java.lang.Runnable"]
  methods := [⟨"<app.Main: void retry()>", some Body.retryStatements⟩,
    ⟨"<app.Main: void stop()>", none⟩]

/-- The same class with another parent. -/
def otherMainClass : ClassDecl where
  name := "app.Main"
  superclass := some "lib.Job"

/-- An application with a plugin that declares a class of it once more. -/
def pluginDocument : BundleDocument where
  name := "app"
  units := [⟨"classes", [mainClass, ⟨"app.Base", none, [], []⟩]⟩, ⟨"plugin", [otherMainClass]⟩]

/-- The bundle of this application. -/
def pluginBundle : Bundle where
  name := "app"
  manifest := {}
  primary := ⟨"classes", [mainClass.withoutBodies, ⟨"app.Base", none, [], []⟩], [Body.retryBody]⟩
  secondary := [⟨"plugin", [otherMainClass], []⟩]

/-- The same declarations with the plugin first and a class moved to it. -/
def movedDocument : BundleDocument where
  name := "app"
  units := [⟨"plugin", [⟨"app.Base", none, [], []⟩, otherMainClass]⟩, ⟨"classes", [mainClass]⟩]

/-- An application with two faulty methods, in its second and third unit. -/
def faultyDocument : BundleDocument where
  name := "app"
  units := [⟨"classes", [mainClass]⟩,
    ⟨"plugin", [⟨"lib.Job", none, [], [⟨"<lib.Job: void go()>", some [⟨none, .goto "away"⟩]⟩]⟩]⟩,
    ⟨"rest", [⟨"lib.End", none, [], [⟨"<lib.End: void go()>", some []⟩]⟩]⟩]

/-- The class has both parents, of which one is not declared, wherever its declarations
stand; and the reported fault is that of the second unit. -/
theorem loading_exact_plugin :
    Bundle.ofDocument pluginDocument = .ok pluginBundle
    ∧ List.Forall₂ UnitDecl.LoadsAs pluginDocument.units pluginBundle.units
    ∧ (∃ h, pluginBundle.hierarchy = .ok h ∧ h.IsDefined "app.Main" ∧ ¬ h.IsDefined "lib.Job")
    ∧ IsRearranged pluginDocument movedDocument
    ∧ (∃ b h, Bundle.ofDocument movedDocument = .ok b ∧ b.hierarchy = .ok h
        ∧ "app.Main" ∈ h.subtypes "lib.Job" ∧ "app.Base" ∈ h.ancestors "app.Main")
    ∧ Bundle.ofDocument faultyDocument
        = .error (.body (.unknownLabel "away" "<lib.Job: void go()>"))
    ∧ ∃ u ∈ faultyDocument.units, ∃ m ∈ u.methods,
        m.HasFault (.unknownLabel "away" "<lib.Job: void go()>") := by
  have hload : Bundle.ofDocument pluginDocument = .ok pluginBundle := by cbv
  have hmoved : IsRearranged pluginDocument movedDocument := by
    show [mainClass, ⟨"app.Base", none, [], []⟩, otherMainClass].Perm
      [⟨"app.Base", none, [], []⟩, otherMainClass, mainClass]
    decide
  have hfaulty : Bundle.ofDocument faultyDocument
      = .error (.body (.unknownLabel "away" "<lib.Job: void go()>")) := by
    cbv
  -- the ancestors before the declarations are moved
  have hplain : pluginBundle.hierarchy.toOption.map (·.ancestors "app.Main")
      = some ["app.Base", "lib.Job", "java.lang.Runnable", "java.lang.Object"] := by
    decide +kernel
  obtain ⟨_, _, _, hloaded⟩ := loading_exact pluginDocument
  obtain ⟨_, _, hunits, h, hhierarchy, hdefined, hsame⟩ := hloaded pluginBundle hload
  obtain ⟨b', h', hload', hhierarchy', hkept⟩ := hsame movedDocument hmoved (by decide)
  obtain ⟨_, _, hfaults, _⟩ := loading_exact faultyDocument
  obtain ⟨fault, i, u, hbody, hu, hfault, _⟩ := (hfaults (by decide)).2 _ hfaulty
  rw [hhierarchy] at hplain
  have hancestors : h.ancestors "app.Main"
      = ["app.Base", "lib.Job", "java.lang.Runnable", "java.lang.Object"] :=
    Option.some.inj hplain
  have hjob : "lib.Job" ∈ h.ancestors "app.Main" := by
    rw [hancestors]
    decide
  cases hbody
  refine ⟨hload, hunits, ⟨h, hhierarchy, (hdefined _).mpr (by decide), ?_⟩, hmoved,
    ⟨b', h', hload', hhierarchy', ?_, ?_⟩, hfaulty, u, List.mem_of_getElem? hu, hfault⟩
  · rw [hdefined]
    decide
  · rw [(hkept _).1]
    exact Hierarchy.mem_subtypes.mpr (Hierarchy.mem_ancestors.mp hjob).2
  · rw [(hkept _).2, hancestors]
    decide

end BundleDocument

end ApiGuard
