/-
  ApiGuard.Hierarchy
  ──────────────────
  Classes, interfaces, and which of them extend or implement which.

  A class is known by its name, in the order in which the names came up; it is
  defined once its declaration has been seen.  A class and a parent of it are
  joined by one link at most, the first one given.
-/
import ApiGuard.Order.SortedSet
import ApiGuard.Search

namespace ApiGuard

/-- The class above all others. -/
def objectClass : String := "java.lang.Object"

/-- A known class. -/
structure ClassEntry where
  name : String
  /-- The declaration of the class has been seen. -/
  defined : Bool
  deriving DecidableEq, Repr

/-- How a class comes to have a parent. -/
inductive Inheritance where
  /-- The parent is the superclass. -/
  | superclass
  /-- The parent is an interface that the class implements. -/
  | interface
  deriving DecidableEq, Repr

/-- A class and one of its parents. -/
structure Link where
  child : String
  parent : String
  kind : Inheritance
  deriving DecidableEq, Repr

/-- The two ends of a link. -/
def Link.ends (l : Link) : String × String := (l.child, l.parent)

/-- Why a link cannot be inserted. -/
inductive HierarchyError where
  /-- The class that should get a parent is not known. -/
  | classNotFound (name : String)
  deriving DecidableEq, Repr

/-- The wording of an error. -/
def HierarchyError.message : HierarchyError → String
  | .classNotFound name => "class not found: " ++ name

/-- The known classes and their links. -/
structure Hierarchy where
  /-- The classes, in the order in which their names came up. -/
  classes : List ClassEntry := []
  /-- The links between them. -/
  links : List Link := []
  /-- No class is known twice. -/
  names_nodup : (classes.map (·.name)).Nodup := by simp
  /-- Links join known classes. -/
  link_known : ∀ l ∈ links, l.child ∈ classes.map (·.name) ∧ l.parent ∈ classes.map (·.name) := by
    simp
  /-- No two links join the same classes. -/
  ends_nodup : (links.map Link.ends).Nodup := by simp

namespace Hierarchy

instance : EmptyCollection Hierarchy := ⟨{}⟩

/-! ## §1. Classes. -/

/-- The names of the known classes, in the order in which they came up. -/
def names (h : Hierarchy) : List String := h.classes.map (·.name)

/-- Is the class known? -/
def contains (h : Hierarchy) (name : String) : Bool := h.names.contains name

/-- The entry of a class. -/
def find? (h : Hierarchy) (name : String) : Option ClassEntry :=
  h.classes.find? (·.name == name)

/-- The number of known classes. -/
def size (h : Hierarchy) : Nat := h.classes.length

/-- The entries once the name has come up, with its declaration if `defined`. -/
def enter (name : String) (defined : Bool) (classes : List ClassEntry) : List ClassEntry :=
  if name ∈ classes.map (·.name) then
    classes.map fun e => if e.name = name then { e with defined := e.defined || defined } else e
  else classes ++ [⟨name, defined⟩]

theorem names_enter (name : String) (defined : Bool) (classes : List ClassEntry) :
    (enter name defined classes).map (·.name)
      = if name ∈ classes.map (·.name) then classes.map (·.name)
        else classes.map (·.name) ++ [name] := by
  rw [enter]
  split
  next => rw [List.map_map]; exact List.map_congr_left fun e _ => by simp; split <;> rfl
  next => simp

theorem subset_names_enter {name : String} {defined : Bool} {classes : List ClassEntry} {n : String}
    (hn : n ∈ classes.map (·.name)) : n ∈ (enter name defined classes).map (·.name) := by
  rw [names_enter]; split
  next => exact hn
  next => exact List.mem_append_left _ hn

theorem mem_names_enter (name : String) (defined : Bool) (classes : List ClassEntry) :
    name ∈ (enter name defined classes).map (·.name) := by
  rw [names_enter]; split
  next h => exact h
  next => simp

/-- The name comes up, with the declaration of the class if `defined`. -/
def declare (h : Hierarchy) (name : String) (defined : Bool) : Hierarchy where
  classes := enter name defined h.classes
  links := h.links
  names_nodup := by
    rw [names_enter]; split
    next => exact h.names_nodup
    next hn =>
      refine List.nodup_append.mpr ⟨h.names_nodup, by simp, fun a ha b hb hab => ?_⟩
      simp only [List.mem_singleton] at hb
      exact hn (hb ▸ hab ▸ ha)
  link_known l hl :=
    ⟨subset_names_enter (h.link_known l hl).1, subset_names_enter (h.link_known l hl).2⟩
  ends_nodup := h.ends_nodup

/-- Insert a class with its declaration. -/
def define (h : Hierarchy) (name : String) : Hierarchy := h.declare name true

/-! ## §2. Links. -/

/-- Add a link between known classes, unless they are linked. -/
def addLink (h : Hierarchy) (l : Link) (hc : l.child ∈ h.names) (hp : l.parent ∈ h.names) :
    Hierarchy :=
  if hl : l.ends ∈ h.links.map Link.ends then h
  else
    { classes := h.classes
      links := h.links ++ [l]
      names_nodup := h.names_nodup
      link_known := fun k hk => by
        rcases List.mem_append.mp hk with hk | hk
        · exact h.link_known k hk
        · rw [List.mem_singleton.mp hk]; exact ⟨hc, hp⟩
      ends_nodup := by
        rw [List.map_append]
        refine List.nodup_append.mpr ⟨h.ends_nodup, by simp, fun a ha b hb hab => ?_⟩
        simp only [List.map_cons, List.map_nil, List.mem_singleton] at hb
        exact hl (hb ▸ hab ▸ ha) }

/-- Give a known class a parent, which need not be known: the hierarchy afterwards, and
whether the class was known. -/
def tryLink (h : Hierarchy) (l : Link) : Hierarchy × Except HierarchyError Unit :=
  if hc : l.child ∈ h.names then
    ((h.declare l.parent false).addLink l (subset_names_enter hc) (mem_names_enter ..), .ok ())
  else (h, .error (.classNotFound l.child))

/-- The hierarchy after a link is inserted, unless that fails. -/
def link (h : Hierarchy) (l : Link) : Except HierarchyError Hierarchy :=
  let (h, outcome) := h.tryLink l
  outcome.map fun _ => h

theorem tryLink_of_mem {h : Hierarchy} {l : Link} (hc : l.child ∈ h.names) :
    h.tryLink l = ((h.declare l.parent false).addLink l (subset_names_enter hc)
      (mem_names_enter ..), .ok ()) := dif_pos hc

theorem tryLink_of_not_mem {h : Hierarchy} {l : Link} (hc : l.child ∉ h.names) :
    h.tryLink l = (h, .error (.classNotFound l.child)) := dif_neg hc

theorem link_of_mem {h : Hierarchy} {l : Link} (hc : l.child ∈ h.names) :
    h.link l = .ok ((h.declare l.parent false).addLink l (subset_names_enter hc)
      (mem_names_enter ..)) := by
  rw [link, tryLink_of_mem hc]
  rfl

theorem link_of_not_mem {h : Hierarchy} {l : Link} (hc : l.child ∉ h.names) :
    h.link l = .error (.classNotFound l.child) := by
  rw [link, tryLink_of_not_mem hc]
  rfl

/-- Is some parent of the class known? -/
def hasParent (h : Hierarchy) (name : String) : Bool := h.links.any (·.child == name)

/-- The classes without a parent, other than the one above all. -/
def orphans (h : Hierarchy) : List String :=
  h.names.filter fun name => name ≠ objectClass && !h.hasParent name

theorem orphans_nodup (h : Hierarchy) : h.orphans.Nodup := h.names_nodup.filter _

/-- Put every orphan below the class above all others. -/
def adopt (h : Hierarchy) (hobj : objectClass ∈ h.names) : Hierarchy where
  classes := h.classes
  links := h.links ++ h.orphans.map fun name => ⟨name, objectClass, .superclass⟩
  names_nodup := h.names_nodup
  link_known l hl := by
    rcases List.mem_append.mp hl with hl | hl
    · exact h.link_known l hl
    · obtain ⟨name, hname, rfl⟩ := List.mem_map.mp hl
      exact ⟨(List.mem_filter.mp hname).1, hobj⟩
  ends_nodup := by
    rw [List.map_append, List.map_map]
    refine List.nodup_append.mpr ⟨h.ends_nodup, ?_, fun a ha b hb hab => ?_⟩
    · exact List.Pairwise.map _ (fun x y hxy he => hxy (Prod.mk.inj he).1) h.orphans_nodup
    · obtain ⟨l, hl, rfl⟩ := List.mem_map.mp ha
      obtain ⟨name, hname, rfl⟩ := List.mem_map.mp hb
      have hchild : l.child = name := congrArg Prod.fst hab
      have := (List.mem_filter.mp hname).2
      simp only [hasParent, Bool.and_eq_true, Bool.not_eq_true', List.any_eq_false] at this
      exact this.2 l hl (by simp [hchild])

/-- Put every class that has no parent below the class above all others. -/
def close (h : Hierarchy) : Hierarchy :=
  (h.declare objectClass false).adopt (mem_names_enter ..)

/-! ## §3. Ancestors and descendants. -/

/-- The parents of a class: first its superclasses and then its interfaces, each
in the order in which they came up. -/
def parents (h : Hierarchy) (name : String) : List String :=
  let up := h.links.filter (·.child == name)
  let through (kind : Inheritance) :=
    h.names.filter fun parent => up.any fun l => l.kind = kind && l.parent = parent
  through .superclass ++ through .interface

/-- The classes that have the given one as a parent. -/
def children (h : Hierarchy) (name : String) : List String :=
  (h.links.filter (·.parent == name)).map (·.child)

/-- The ancestors of a class, nearest first, without the class itself. -/
def ancestors (h : Hierarchy) (name : String) : List String :=
  (Search.search h.parents h.names [name]).tail

/-- A class and its descendants. -/
def subtypes (h : Hierarchy) (name : String) : SortedSet String :=
  SortedSet.ofList (name :: Search.search h.children h.names [name])

end Hierarchy

end ApiGuard
