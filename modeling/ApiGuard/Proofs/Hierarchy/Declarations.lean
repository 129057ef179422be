/-
  ApiGuard.Proofs.Hierarchy.Declarations
  ──────────────────────────────────────
  Hierarchies in which classes and then links are inserted.

  A class is defined if its declaration was inserted; to give a class a parent defines
  nothing.  If the classes that get parents are known, all links are inserted, and what is
  above or below a class depends on the links alone:

      exists_foldlM_link      links of known classes are inserted, and nothing else
      mem_ancestors_congr     the same links lead to the same ancestors
      subtypes_congr          and to the same descendants
-/
import ApiGuard.Proofs.Hierarchy.Ancestry

namespace ApiGuard.Hierarchy

/-- The class is known, and its declaration has been seen. -/
def IsDefined (h : Hierarchy) (name : String) : Prop :=
  ∃ e, h.find? name = some e ∧ e.defined = true

variable {h h' : Hierarchy} {name other c p : String}

/-! ## §1. Defined classes. -/

/-- A class has one entry. -/
theorem find?_eq_some_iff {e : ClassEntry} :
    h.find? name = some e ↔ e ∈ h.classes ∧ e.name = name := by
  unfold find?
  constructor
  · intro hfind
    exact ⟨List.mem_of_find?_eq_some hfind, by simpa using List.find?_some hfind⟩
  · intro hentry
    obtain ⟨he, rfl⟩ := hentry
    have hsome : (h.classes.find? fun k => k.name == e.name).isSome := by
      rw [List.find?_isSome]
      exact ⟨e, he, beq_self_eq_true e.name⟩
    obtain ⟨found, hfind⟩ := Option.isSome_iff_exists.mp hsome
    have hname : found.name = e.name := by simpa using List.find?_some hfind
    rw [hfind, List.inj_on_of_nodup_map h.names_nodup (List.mem_of_find?_eq_some hfind) he hname]

theorem isDefined_iff : h.IsDefined name ↔ ⟨name, true⟩ ∈ h.classes := by
  unfold IsDefined
  simp only [find?_eq_some_iff]
  constructor
  · intro hdefined
    obtain ⟨⟨_, _⟩, ⟨he, rfl⟩, rfl⟩ := hdefined
    exact he
  · intro he
    exact ⟨⟨name, true⟩, ⟨he, rfl⟩, rfl⟩

/-- A class is defined after a name has come up if it was before, or if the name came up with its
declaration. -/
theorem mem_enter_iff {defined : Bool} {classes : List ClassEntry} :
    ⟨other, true⟩ ∈ enter name defined classes
      ↔ ⟨other, true⟩ ∈ classes ∨ (other = name ∧ defined = true) := by
  unfold enter
  split
  next hmem =>
      rw [List.mem_map]
      constructor
      · intro hentry
        obtain ⟨e, he, heq⟩ := hentry
        split at heq
        next hname =>
            obtain ⟨rfl, hor⟩ := ClassEntry.mk.inj heq
            rcases Bool.or_eq_true_iff.mp hor with hdefined | hdefined
            · exact .inl (hdefined ▸ he)
            · exact .inr ⟨hname, hdefined⟩
        next => exact .inl (heq ▸ he)
      · intro hentry
        rcases hentry with he | ⟨rfl, rfl⟩
        · refine ⟨_, he, ?_⟩
          split
          next => simp
          next => rfl
        · -- the known class becomes defined
          obtain ⟨e, he, rfl⟩ := List.mem_map.mp hmem
          exact ⟨e, he, by simp⟩
  next =>
      rw [List.mem_append, List.mem_singleton, ClassEntry.mk.injEq, @eq_comm _ true]

theorem isDefined_declare {defined : Bool} :
    (h.declare name defined).IsDefined other
      ↔ h.IsDefined other ∨ (other = name ∧ defined = true) := by
  rw [isDefined_iff, isDefined_iff]
  exact mem_enter_iff

/-- To close a hierarchy defines no class. -/
theorem isDefined_close : h.close.IsDefined name ↔ h.IsDefined name := by
  have hdeclare : h.close.IsDefined name ↔ (h.declare objectClass false).IsDefined name := Iff.rfl
  rw [hdeclare, isDefined_declare, or_iff_left (fun hno => Bool.noConfusion hno.2)]

/-! ## §2. Declared classes. -/

/-- Classes that are inserted with their declarations are those that are known and defined,
besides those that were, and nothing is linked by that. -/
theorem foldl_define (names : List String) :
    ∀ h : Hierarchy,
      (∀ n, n ∈ (names.foldl define h).names ↔ n ∈ h.names ∨ n ∈ names)
      ∧ (∀ n, (names.foldl define h).IsDefined n ↔ h.IsDefined n ∨ n ∈ names)
      ∧ (∀ c p, (names.foldl define h).IsLinked c p ↔ h.IsLinked c p) := by
  induction names with
  | nil =>
      intro h
      simp
  | cons name rest ih =>
      intro h
      obtain ⟨hnames, hdefined, hlinked⟩ := ih (h.define name)
      refine ⟨fun n => ?_, fun n => ?_, fun c p => hlinked c p⟩
      · rw [List.foldl_cons, hnames, define, mem_names_declare, List.mem_cons, or_assoc]
      · rw [List.foldl_cons, hdefined, define, isDefined_declare, List.mem_cons, or_assoc,
          and_iff_left rfl]

/-- From the start just the inserted classes are known, all of them defined. -/
theorem foldl_define_empty (names : List String) :
    (∀ n, n ∈ (names.foldl define ∅).names ↔ n ∈ names)
    ∧ (∀ n, (names.foldl define ∅).IsDefined n ↔ n ∈ names)
    ∧ (∀ c p, ¬ (names.foldl define ∅).IsLinked c p) := by
  obtain ⟨hnames, hdefined, hlinked⟩ := foldl_define names (∅ : Hierarchy)
  have hnone : ∀ n, n ∉ (∅ : Hierarchy).names := fun _ => List.not_mem_nil
  refine ⟨fun n => ?_, fun n => ?_, fun c p hlink => ?_⟩
  · rw [hnames, or_iff_right (hnone n)]
  · have hundefined : ¬ (∅ : Hierarchy).IsDefined n :=
      fun hd => List.not_mem_nil (isDefined_iff.mp hd)
    rw [hdefined, or_iff_right hundefined]
  · rw [hlinked] at hlink
    exact hnone c (mem_names_of_isLinked hlink).1

/-! ## §3. Links. -/

/-- What the second hierarchy has besides the first is the given links and their ends. -/
structure Gains (h : Hierarchy) (links : List Link) (h' : Hierarchy) : Prop where
  names : ∀ n, n ∈ h'.names ↔ n ∈ h.names ∨ ∃ l ∈ links, l.parent = n
  defined : ∀ n, h'.IsDefined n ↔ h.IsDefined n
  linked : ∀ c p, h'.IsLinked c p ↔ h.IsLinked c p ∨ ∃ l ∈ links, l.child = c ∧ l.parent = p

theorem classes_addLink {l : Link} (hc : l.child ∈ h.names) (hp : l.parent ∈ h.names) :
    (h.addLink l hc hp).classes = h.classes := by
  unfold addLink
  split
  next => rfl
  next => rfl

/-- A known class gets the parent, which is known from then on. -/
theorem exists_link {l : Link} (hc : l.child ∈ h.names) :
    ∃ linked, h.link l = .ok linked ∧ Gains h [l] linked := by
  have hclasses := classes_addLink (h := h.declare l.parent false) (l := l)
    (subset_names_enter hc) (mem_names_enter ..)
  refine ⟨_, link_of_mem hc, fun n => ?_, fun n => ?_, fun c p => ?_⟩
  · unfold names at *
    rw [hclasses]
    show n ∈ (h.declare l.parent false).names ↔ n ∈ h.names ∨ _
    rw [mem_names_declare]
    simp [eq_comm]
  · rw [isDefined_iff, hclasses, ← isDefined_iff, isDefined_declare,
      or_iff_left (fun hno => Bool.noConfusion hno.2)]
  · rw [isLinked_of_link (link_of_mem hc)]
    simp

theorem Gains.trans {links more : List Link} {h'' : Hierarchy} (hg : Gains h links h')
    (hg' : Gains h' more h'') : Gains h (links ++ more) h'' := by
  refine ⟨fun n => ?_, fun n => ?_, fun c p => ?_⟩
  · rw [hg'.names, hg.names, or_assoc]
    simp [or_and_right, exists_or]
  · rw [hg'.defined, hg.defined]
  · rw [hg'.linked, hg.linked, or_assoc]
    simp [or_and_right, exists_or]

/-- Links of known classes are all inserted.  What they know stays known, so that no
insertion fails because of those before. -/
theorem exists_foldlM_link (links : List Link) :
    ∀ h : Hierarchy, (∀ l ∈ links, l.child ∈ h.names) →
      ∃ h', links.foldlM link h = .ok h' ∧ Gains h links h' := by
  induction links with
  | nil =>
      intro h _
      exact ⟨h, rfl, by simp, by simp, by simp⟩
  | cons l rest ih =>
      intro h hknown
      obtain ⟨linked, hlink, hgains⟩ := exists_link (hknown l List.mem_cons_self)
      have hrest : ∀ k ∈ rest, k.child ∈ linked.names := by
        intro k hk
        exact (hgains.names _).mpr (.inl (hknown k (List.mem_cons_of_mem l hk)))
      obtain ⟨h', hfold, hgains'⟩ := ih linked hrest
      refine ⟨h', ?_, hgains.trans hgains'⟩
      rw [List.foldlM_cons, hlink]
      exact hfold

/-! ## §4. The same links. -/

section

variable (hlinked : ∀ c p, h.IsLinked c p ↔ h'.IsLinked c p)

include hlinked

theorem climbs_congr {n : Nat} : h.Climbs n c p ↔ h'.Climbs n c p :=
  ⟨climbs_mono fun c p => (hlinked c p).mp, climbs_mono fun c p => (hlinked c p).mpr⟩

/-- The same links lead to the same ancestors, whatever order they came in. -/
theorem mem_ancestors_congr : p ∈ h.ancestors c ↔ p ∈ h'.ancestors c := by
  rw [mem_ancestors, mem_ancestors]
  simp only [climbs_congr hlinked]

/-- The same links lead to the same descendants. -/
theorem subtypes_congr (name : String) : h.subtypes name = h'.subtypes name := by
  refine SortedSet.ext fun c => ?_
  rw [mem_subtypes, mem_subtypes]
  simp only [climbs_congr hlinked]

end

end ApiGuard.Hierarchy
