/-
  ApiGuard.Proofs.Hierarchy.Links
  ───────────────────────────────
  The links of a hierarchy that is built by operations.

  A class is linked to a parent if an insertion of this link succeeded, or if the class had
  no parent when the hierarchy was closed.  No link is ever lost:

      isLinked_apply    what one operation links
      isLinked_built    so links are what the operations of the history link
-/
import ApiGuard.Hierarchy
import ApiGuard.Proofs.History

namespace ApiGuard.Hierarchy

/-! ## §1. Operations. -/

/-- What one may do to a hierarchy. -/
inductive Operation where
  /-- Insert a class with its declaration. -/
  | define (name : String)
  /-- Give a class a parent. -/
  | link (l : Link)
  /-- Put every class without a parent below the class above all others. -/
  | close
  deriving DecidableEq

/-- The hierarchy after an operation, whether it succeeds or fails. -/
def apply (h : Hierarchy) : Operation → Hierarchy
  | .define name => h.define name
  | .link l => (h.tryLink l).1
  | .close => h.close

/-- The hierarchy that operations lead to from the one without classes. -/
def built (ops : List Operation) : Hierarchy := ops.foldl apply ∅

theorem built_concat (ops : List Operation) (op : Operation) :
    built (ops ++ [op]) = (built ops).apply op := by
  unfold built
  rw [List.foldl_append]
  rfl

/-! ## §2. Links. -/

/-- A link leads from the first class up to the second. -/
def IsLinked (h : Hierarchy) (child parent : String) : Prop :=
  ∃ l ∈ h.links, l.child = child ∧ l.parent = parent

/-- The operation links the two classes: it inserts a link between them and succeeds, or it
closes the hierarchy and the first class has no parent yet. -/
def Adds (h : Hierarchy) : Operation → String × String → Prop
  | .define _, _ => False
  | .link l, ends => (∃ linked, h.link l = .ok linked) ∧ ends = (l.child, l.parent)
  | .close, ends =>
    ends.1 ∈ h.names ∧ (∀ parent, ¬ h.IsLinked ends.1 parent) ∧ ends.1 ≠ objectClass
      ∧ ends.2 = objectClass

variable {h : Hierarchy} {c p : String}

theorem mem_names_of_isLinked (hl : h.IsLinked c p) : c ∈ h.names ∧ p ∈ h.names := by
  obtain ⟨l, hmem, rfl, rfl⟩ := hl
  exact h.link_known l hmem

/-- A link between known classes joins these classes, and leaves all others as they are. -/
theorem isLinked_addLink {l : Link} (hc : l.child ∈ h.names) (hp : l.parent ∈ h.names) :
    (h.addLink l hc hp).IsLinked c p ↔ h.IsLinked c p ∨ (l.child = c ∧ l.parent = p) := by
  unfold IsLinked addLink
  split
  next hends =>
      -- these classes are linked, so nothing changes
      obtain ⟨old, hold, heq⟩ := List.mem_map.mp hends
      obtain ⟨hchild, hparent⟩ := Prod.mk.inj heq
      refine (or_iff_left_of_imp ?_).symm
      rintro ⟨rfl, rfl⟩
      exact ⟨old, hold, hchild, hparent⟩
  next =>
      simp only [List.mem_append, List.mem_singleton]
      constructor
      · rintro ⟨k, hk | rfl, hends⟩
        · exact .inl ⟨k, hk, hends⟩
        · exact .inr hends
      · rintro (⟨k, hk, hends⟩ | hends)
        · exact ⟨k, .inl hk, hends⟩
        · exact ⟨l, .inr rfl, hends⟩

/-- An insertion that succeeds adds the link. -/
theorem isLinked_of_link {l : Link} {linked : Hierarchy} (hok : h.link l = .ok linked) :
    linked.IsLinked c p ↔ h.IsLinked c p ∨ (l.child = c ∧ l.parent = p) := by
  by_cases hc : l.child ∈ h.names
  · rw [link_of_mem hc] at hok
    cases hok
    -- the parent may come up now, which links nothing
    exact isLinked_addLink _ _
  · rw [link_of_not_mem hc] at hok
    cases hok

theorem hasParent_iff {name : String} :
    h.hasParent name = true ↔ ∃ parent, h.IsLinked name parent := by
  unfold hasParent IsLinked
  simp only [List.any_eq_true, beq_iff_eq]
  constructor
  · rintro ⟨l, hl, hchild⟩
    exact ⟨l.parent, l, hl, hchild, rfl⟩
  · rintro ⟨_, l, hl, hchild, _⟩
    exact ⟨l, hl, hchild⟩

/-- Orphans are the known classes without a parent, but for the one above all. -/
theorem mem_orphans_iff {name : String} :
    name ∈ h.orphans
      ↔ name ∈ h.names ∧ name ≠ objectClass ∧ ∀ parent, ¬ h.IsLinked name parent := by
  unfold orphans
  rw [List.mem_filter, Bool.and_eq_true, decide_eq_true_eq, Bool.not_eq_true', ← Bool.not_eq_true,
    hasParent_iff, not_exists]

/-- A class comes up, or was known. -/
theorem mem_names_declare {name other : String} {defined : Bool} :
    other ∈ (h.declare name defined).names ↔ other ∈ h.names ∨ other = name := by
  show other ∈ (enter name defined h.classes).map (·.name) ↔ other ∈ h.classes.map (·.name) ∨ _
  rw [names_enter]
  split
  next hmem =>
      refine (or_iff_left_of_imp ?_).symm
      rintro rfl
      exact hmem
  next => rw [List.mem_append, List.mem_singleton]

/-- Put below the class above all others are the classes known before that have no parent. -/
theorem mem_orphans_declare :
    c ∈ (h.declare objectClass false).orphans
      ↔ c ∈ h.names ∧ (∀ parent, ¬ h.IsLinked c parent) ∧ c ≠ objectClass := by
  rw [mem_orphans_iff, mem_names_declare]
  constructor
  · -- the class that may have come up now is none of the orphans
    rintro ⟨hname, hne, hnone⟩
    exact ⟨hname.resolve_right hne, hnone, hne⟩
  · rintro ⟨hname, hnone, hne⟩
    exact ⟨.inl hname, hne, hnone⟩

/-- To close a hierarchy links the classes without a parent to the one above all others. -/
theorem isLinked_close :
    h.close.IsLinked c p
      ↔ h.IsLinked c p ∨ (c ∈ h.names ∧ (∀ parent, ¬ h.IsLinked c parent) ∧ c ≠ objectClass
          ∧ p = objectClass) := by
  have hlink : h.close.IsLinked c p
      ↔ h.IsLinked c p ∨ (c ∈ (h.declare objectClass false).orphans ∧ p = objectClass) := by
    show (∃ l ∈ h.links ++ (h.declare objectClass false).orphans.map _, _) ↔ _
    simp only [List.mem_append, List.mem_map]
    constructor
    · rintro ⟨l, hl | ⟨name, hname, rfl⟩, hchild, hparent⟩
      · exact .inl ⟨l, hl, hchild, hparent⟩
      · obtain rfl : name = c := hchild
        exact .inr ⟨hname, hparent.symm⟩
    · rintro (⟨l, hl, hends⟩ | ⟨hname, rfl⟩)
      · exact ⟨l, .inl hl, hends⟩
      · exact ⟨_, .inr ⟨c, hname, rfl⟩, rfl, rfl⟩
  rw [hlink, mem_orphans_declare]
  simp only [and_assoc]

/-- An operation keeps all links and adds its own. -/
theorem isLinked_apply (op : Operation) :
    (h.apply op).IsLinked c p ↔ h.IsLinked c p ∨ h.Adds op (c, p) := by
  cases op with
  | define name => exact (or_iff_left not_false).symm
  | close => exact isLinked_close
  | link l =>
      show (h.tryLink l).1.IsLinked c p
        ↔ _ ∨ ((∃ linked, h.link l = .ok linked) ∧ (c, p) = (l.child, l.parent))
      by_cases hc : l.child ∈ h.names
      · rw [tryLink_of_mem hc, isLinked_of_link (link_of_mem hc), link_of_mem hc]
        simp only [Except.ok.injEq, exists_eq', true_and, Prod.mk.injEq]
        exact or_congr_right (and_congr eq_comm eq_comm)
      · -- nothing is linked, and the hierarchy is the one before
        rw [tryLink_of_not_mem hc, link_of_not_mem hc]
        simp

/-- Linked are the classes that some operation of the history links. -/
theorem isLinked_built (ops : List Operation) :
    (built ops).IsLinked c p ↔ HappensIn built Adds ops (c, p) := by
  have hnil : ¬ (built []).IsLinked c p := by
    rintro ⟨_, hl, _⟩
    cases hl
  refine holds_iff_happensIn built (fun h ends => h.IsLinked ends.1 ends.2) (c, p) hnil
    (fun ops op => ?_) ops
  rw [built_concat]
  exact isLinked_apply op

end ApiGuard.Hierarchy
