/-
  ApiGuard.Proofs.CallGraph.Indexes
  ─────────────────────────────────
  The parts of a call graph agree after any operations.

  A graph keeps its edges in four ways: by number, by arc, by target once they are
  stored, and by the classes of their ends.  Operations touch some of these and not
  others, but it is known which edges each of them requests and stores (`Requests`,
  `Stores`), and each part of the graph follows from that:

      indexed_run       the methods of a class are the ends of stored edges
      isRequested_run   there are numbers for the arcs that some operation requests
      isStored_run      stored are the edges that some operation stores
      indexes_agree     all of this, and what it means for queries
-/
import ApiGuard.CallGraph.Guards
import ApiGuard.Proofs.CallGraph.Linking
import ApiGuard.Proofs.History
import ApiGuard.Proofs.Search.Distance
import Mathlib.Data.List.Induction
import Mathlib.Data.List.Nodup

namespace ApiGuard.CallGraph

variable {g : CallGraph}

/-! ## §1. The methods of classes. -/

/-- The method stands at an end of a stored edge. -/
def IsEnd (g : CallGraph) (method : String) : Prop :=
  ∃ a, g.IsStored a ∧ (method = a.source ∨ method = a.target)

/-- Besides being well-formed, the graph keeps no empty entries, and the members of
each class are the ends of stored edges that it declares, without constructors. -/
structure Indexed (g : CallGraph) : Prop extends WellFormed g where
  stored_isProper : g.stored.IsProper
  members_isProper : g.members.IsProper
  mem_members_iff : ∀ {className method : String}, method ∈ g.members.image className
    ↔ g.IsEnd method ∧ Signature.denotesConstructor method = false
      ∧ Signature.declaringClass method = className

theorem indexed_empty : Indexed ∅ where
  toWellFormed := wellFormed_empty
  stored_isProper := Relation.isProper_empty
  members_isProper := Relation.isProper_empty
  mem_members_iff := by
    intro className method
    constructor
    · intro hmem
      exact absurd hmem (SortedSet.not_mem_empty _)
    · intro hend
      obtain ⟨⟨a, ⟨e, he, _⟩, _⟩, _⟩ := hend
      cases he

/-- What stores and enters nothing keeps the parts in agreement. -/
theorem Indexed.of_same {g' : CallGraph} (h : g.Indexed) (hwf : g'.WellFormed)
    (hstored : g'.stored = g.stored) (hmembers : g'.members = g.members)
    (hsame : ∀ a, g'.IsStored a ↔ g.IsStored a) : g'.Indexed where
  toWellFormed := hwf
  stored_isProper := by rw [hstored]; exact h.stored_isProper
  members_isProper := by rw [hmembers]; exact h.members_isProper
  mem_members_iff := by
    intro className method
    unfold IsEnd
    simp only [hmembers, hsame]
    exact h.mem_members_iff

/-- A method that comes up is a member of its class, unless it is a constructor. -/
theorem mem_members_enterMethod {method m className : String} :
    m ∈ (g.enterMethod method).members.image className
      ↔ m ∈ g.members.image className ∨ (m = method
        ∧ Signature.denotesConstructor m = false ∧ Signature.declaringClass m = className) := by
  unfold enterMethod
  cases hctor : Signature.denotesConstructor method with
  | true =>
      rw [if_pos rfl]
      constructor
      · exact .inl
      · rintro (hmem | ⟨rfl, hno, _⟩)
        · exact hmem
        · rw [hctor] at hno
          cases hno
  | false =>
      rw [if_neg (by simp)]
      show m ∈ (g.members.add (Signature.declaringClass method) method).image className ↔ _
      rw [Relation.mem_image_add]
      grind

theorem isProper_members_enterMethod (h : g.members.IsProper) (method : String) :
    (g.enterMethod method).members.IsProper := by
  unfold enterMethod
  split
  next => exact h
  next => exact h.add _ _

theorem members_add {id : Nat} {e : Edge} (he : g.edges[id]? = some e) :
    (g.add id).1.members = if e.isValid = true
      then (((g.store id e.target).1.enterMethod e.source).enterMethod e.target).members
      else g.members := by
  unfold add
  rw [he]
  dsimp only
  split <;> rfl

theorem mem_members_add {id : Nat} {e : Edge} (he : g.edges[id]? = some e)
    {m className : String} :
    m ∈ (g.add id).1.members.image className
      ↔ m ∈ g.members.image className ∨ ((e.isValid = true ∧ (m = e.source ∨ m = e.target))
        ∧ Signature.denotesConstructor m = false ∧ Signature.declaringClass m = className) := by
  rw [members_add he]
  split
  next hvalid =>
      rw [mem_members_enterMethod, mem_members_enterMethod]
      show (m ∈ g.members.image className ∨ _) ∨ _ ↔ _
      grind
  next hvalid => simp [hvalid]

/-- To store an edge keeps the indexes: it comes under its target, and its ends become members of
their classes. -/
theorem Indexed.add (h : g.Indexed) (id : Nat) : (g.add id).1.Indexed := by
  cases he : g.edges[id]? with
  | none =>
      have hsame : (g.add id).1 = g := by
        unfold CallGraph.add
        rw [he]
      rw [hsame]
      exact h
  | some e =>
      have hend : ∀ m, (g.add id).1.IsEnd m
          ↔ g.IsEnd m ∨ (e.isValid = true ∧ (m = e.source ∨ m = e.target)) := by
        intro m
        unfold IsEnd
        simp only [h.isStored_add (h.number_of_edge he)]
        grind
      refine ⟨h.toWellFormed.add id, ?_, ?_, ?_⟩
      · rw [stored_add he]
        split
        next => exact h.stored_isProper.add _ _
        next => exact h.stored_isProper
      · rw [members_add he]
        split
        next =>
            have hstore : (g.store id e.target).1.members.IsProper := h.members_isProper
            exact isProper_members_enterMethod (isProper_members_enterMethod hstore _) _
        next => exact h.members_isProper
      · intro className m
        rw [mem_members_add he, h.mem_members_iff, hend]
        grind

/-! ## §2. The arcs from constructors. -/

/-- Given which arcs are stored: the source is a constructor that is called, and
the target a method of its class, no constructor, at an end of a stored arc. -/
def IsConstructorArc (IsStored : Arc → Prop) (a : Arc) : Prop :=
  Signature.denotesConstructor a.source = true ∧ (∃ b, IsStored b ∧ b.target = a.source)
    ∧ Signature.denotesConstructor a.target = false
    ∧ (∃ b, IsStored b ∧ (a.target = b.source ∨ a.target = b.target))
    ∧ Signature.declaringClass a.target = Signature.declaringClass a.source

theorem Indexed.mem_keys_stored (h : g.Indexed) {target : String} :
    target ∈ g.stored.keys ↔ ∃ a, g.IsStored a ∧ a.target = target := by
  rw [h.stored_isProper.mem_keys_iff]
  constructor
  · intro himage
    obtain ⟨id, hid⟩ := himage
    obtain ⟨e, he, rfl, _⟩ := h.edge_of_stored hid
    exact ⟨e.toArc, h.isStored_iff.mpr ⟨id, h.number_of_edge he, hid⟩, rfl⟩
  · intro hstored
    obtain ⟨a, ha, rfl⟩ := hstored
    obtain ⟨id, _, hid⟩ := h.isStored_iff.mp ha
    exact ⟨id, hid⟩

theorem Indexed.mem_constructorArcs (h : g.Indexed) {a : Arc} :
    a ∈ g.constructorArcs ↔ IsConstructorArc g.IsStored a := by
  unfold constructorArcs IsConstructorArc
  simp only [List.mem_flatMap, List.mem_filter, List.mem_map, h.mem_keys_stored,
    ← SortedSet.mem_def, h.mem_members_iff]
  constructor
  · rintro ⟨ctor, ⟨hcalled, hctor⟩, method, ⟨hend, hno, hclass⟩, rfl⟩
    exact ⟨hctor, hcalled, hno, hend, hclass⟩
  · rintro ⟨hctor, hcalled, hno, hend, hclass⟩
    exact ⟨a.source, ⟨hcalled, hctor⟩, a.target, ⟨hend, hno, hclass⟩, rfl⟩

theorem WellFormed.isValid_of_isConstructorArc (h : g.WellFormed) {a : Arc}
    (ha : IsConstructorArc g.IsStored a) : a.isValid = true := by
  obtain ⟨hctor, ⟨b, hb, hsource⟩, hno, ⟨b', hb', hend⟩, _⟩ := ha
  -- both ends are ends of stored arcs, and one of them is no constructor
  have hvalid := h.isValid_of_isStored hb
  have hvalid' := h.isValid_of_isStored hb'
  have hne : a.source ≠ a.target := by
    intro heq
    rw [heq, hno] at hctor
    cases hctor
  unfold Arc.isValid at hvalid hvalid' ⊢
  simp only [ne_eq, Bool.and_eq_true, decide_eq_true_eq] at hvalid hvalid' ⊢
  grind

/-- To link arcs leaves no target with an empty set of edges. -/
theorem isProper_stored_linkAll (arcs : List Arc) :
    ∀ {g : CallGraph}, g.stored.IsProper → (g.linkAll arcs).1.stored.IsProper := by
  induction arcs with
  | nil => exact fun h => h
  | cons arc rest ih =>
      intro g h
      rw [linkAll_cons]
      refine ih ?_
      cases hvalid : arc.isValid with
      | true =>
          rw [link_of_isValid g hvalid]
          show ((g.intern arc).1.stored.add arc.target (g.intern arc).2).IsProper
          rw [stored_intern]
          exact h.add _ _
      | false =>
          rw [link_of_not_isValid g hvalid]
          show (g.intern arc).1.stored.IsProper
          rw [stored_intern]
          exact h

/-- Linking constructors brings no new end that is no constructor, so that there is
nothing to enter. -/
theorem Indexed.linkConstructors (h : g.Indexed) : g.linkConstructors.1.Indexed := by
  refine ⟨h.toWellFormed.linkAll _, isProper_stored_linkAll _ h.stored_isProper, ?_, ?_⟩
  · show (g.linkAll _).1.members.IsProper
    rw [members_linkAll]
    exact h.members_isProper
  · intro className m
    show m ∈ (g.linkAll _).1.members.image className ↔ _
    rw [members_linkAll, h.mem_members_iff]
    unfold IsEnd CallGraph.linkConstructors
    simp only [isStored_linkAll _ h.toWellFormed, h.mem_constructorArcs]
    constructor
    · rintro ⟨⟨a, ha, hm⟩, hno, hclass⟩
      exact ⟨⟨a, .inl ha, hm⟩, hno, hclass⟩
    · rintro ⟨⟨a, ha | ⟨ha, _⟩, hm⟩, hno, hclass⟩
      · exact ⟨⟨a, ha, hm⟩, hno, hclass⟩
      · -- the source of a linked arc is a constructor, and the target was an end before
        obtain ⟨hctor, _, _, hend, _⟩ := ha
        rcases hm with rfl | rfl
        · rw [hctor] at hno
          cases hno
        · exact ⟨hend, hno, hclass⟩

/-- Each operation keeps the indexes. -/
theorem Indexed.apply (h : g.Indexed) (op : Operation) : (g.apply op).Indexed := by
  have hintern : ∀ arc, (g.intern arc).1.Indexed := fun arc =>
    h.of_same (h.toWellFormed.intern arc) (stored_intern arc) (members_intern g arc)
      (h.isStored_intern arc)
  have hextend : ∀ {g : CallGraph}, g.Indexed → ∀ id cs, (g.extend id cs).Indexed :=
    fun h id cs => h.of_same (h.toWellFormed.modify id (·.union cs)) rfl rfl
      (h.isStored_extend id cs)
  cases op with
  | intern arc => exact hintern arc
  | addCondition id c => exact hextend h id (.ofList [c])
  | extend id cs => exact hextend h id cs
  | add id => exact h.add id
  | record arc c =>
      -- the edge is requested, extended and added
      exact (hextend (hintern arc) _ (.ofList [c])).add _
  | linkConstructors => exact h.linkConstructors

/-- The graph that operations lead to from the graph without edges. -/
def built (ops : List Operation) : CallGraph := ops.foldl apply ∅

theorem built_concat (ops : List Operation) (op : Operation) :
    built (ops ++ [op]) = (built ops).apply op := by
  unfold built
  rw [List.foldl_append]
  rfl

theorem indexed_run (ops : List Operation) : (built ops).Indexed := by
  induction ops using List.reverseRecOn with
  | nil => exact indexed_empty
  | append_singleton ops op ih =>
      rw [built_concat]
      exact ih.apply op

/-! ## §3. What operations request and store. -/

/-- The operation requests the edge of the arc. -/
def Requests (g : CallGraph) : Operation → Arc → Prop
  | .intern arc, a => a = arc
  | .record arc _, a => a = arc
  | .linkConstructors, a => IsConstructorArc g.IsStored a
  | .addCondition _ _, _ | .extend _ _, _ | .add _, _ => False

/-- The operation stores the edge of the arc. -/
def Stores (g : CallGraph) : Operation → Arc → Prop
  | .add id, a => ∃ e, g.edges[id]? = some e ∧ e.toArc = a ∧ a.isValid = true
  | .record arc _, a => a = arc ∧ a.isValid = true
  | .linkConstructors, a => IsConstructorArc g.IsStored a
  | .intern _, _ | .addCondition _ _, _ | .extend _ _, _ => False

/-- Some operation does this to the arc, in the graph that those before it built. -/
def Happens (Does : CallGraph → Operation → Arc → Prop) (ops : List Operation) (a : Arc) :
    Prop :=
  ∃ before op after, ops = before ++ op :: after ∧ Does (built before) op a

/-- What each operation adds to a property of arcs is what happens in the run. -/
theorem run_iff_happens {P : CallGraph → Arc → Prop}
    {Does : CallGraph → Operation → Arc → Prop} {a : Arc} (hempty : ¬ P ∅ a)
    (hstep : ∀ {g : CallGraph}, g.Indexed → ∀ op, P (g.apply op) a ↔ P g a ∨ Does g op a)
    (ops : List Operation) : P (built ops) a ↔ Happens Does ops a := by
  refine holds_iff_happensIn built P a hempty (fun ops op => ?_) ops
  rw [built_concat]
  exact hstep (indexed_run ops) op

/-- The edge of the arc was requested. -/
def IsRequested (g : CallGraph) (a : Arc) : Prop := ∃ id, g.numbers.find? a = some id

theorem isRequested_intern {arc a : Arc} :
    (g.intern arc).1.IsRequested a ↔ g.IsRequested a ∨ a = arc := by
  unfold IsRequested
  by_cases ha : a = arc
  · subst ha
    simp [find?_intern]
  · simp [find?_intern_of_ne ha, ha]

theorem isRequested_linkAll {a : Arc} (arcs : List Arc) :
    ∀ {g : CallGraph}, (g.linkAll arcs).1.IsRequested a ↔ g.IsRequested a ∨ a ∈ arcs := by
  induction arcs with
  | nil => intro g; simp [linkAll]
  | cons arc rest ih =>
      intro g
      have hlink : (g.link arc).1.IsRequested a ↔ g.IsRequested a ∨ a = arc := by
        rw [← isRequested_intern]
        unfold IsRequested
        rw [numbers_link]
      rw [linkAll_cons, ih, hlink, List.mem_cons, or_assoc]

/-- Requested after an operation is what was before, and what the operation requests. -/
theorem Indexed.isRequested_apply (h : g.Indexed) (op : Operation) {a : Arc} :
    (g.apply op).IsRequested a ↔ g.IsRequested a ∨ g.Requests op a := by
  cases op with
  | intern arc => exact isRequested_intern
  | addCondition id c => exact (or_iff_left not_false).symm
  | extend id cs => exact (or_iff_left not_false).symm
  | add id =>
      show (∃ i, (g.add id).1.numbers.find? a = some i) ↔ _
      rw [numbers_add]
      exact (or_iff_left not_false).symm
  | record arc c =>
      show (∃ i, (g.record arc c).1.numbers.find? a = some i) ↔ _
      unfold CallGraph.record
      rw [numbers_add]
      exact isRequested_intern
  | linkConstructors =>
      show _ ↔ _ ∨ IsConstructorArc g.IsStored a
      rw [← h.mem_constructorArcs]
      exact isRequested_linkAll g.constructorArcs

theorem Indexed.isStored_linkConstructors (h : g.Indexed) {a : Arc} :
    g.linkConstructors.1.IsStored a ↔ g.IsStored a ∨ IsConstructorArc g.IsStored a := by
  unfold CallGraph.linkConstructors
  rw [isStored_linkAll _ h.toWellFormed, h.mem_constructorArcs]
  constructor
  · exact Or.imp_right And.left
  · exact Or.imp_right fun ha => ⟨ha, h.isValid_of_isConstructorArc ha⟩

/-- Stored after an operation is what was before, and what the operation stores. -/
theorem Indexed.isStored_apply (h : g.Indexed) (op : Operation) {a : Arc} :
    (g.apply op).IsStored a ↔ g.IsStored a ∨ g.Stores op a := by
  cases op with
  | intern arc => exact (h.isStored_intern arc a).trans (or_iff_left not_false).symm
  | addCondition id c =>
      exact (h.isStored_extend id (.ofList [c]) a).trans (or_iff_left not_false).symm
  | extend id cs => exact (h.isStored_extend id cs a).trans (or_iff_left not_false).symm
  | add id =>
      show (g.add id).1.IsStored a ↔ _
      cases he : g.edges[id]? with
      | none => simp [Stores, he, CallGraph.add]
      | some e =>
          rw [h.isStored_add (h.number_of_edge he)]
          simp only [Stores, he, Option.some.injEq]
          grind
  | record arc c =>
      show (g.extendArc arc (.ofList [c])).IsStored a ↔ _
      rw [h.isStored_extendArc]
      simp only [Stores]
      grind
  | linkConstructors => exact h.isStored_linkConstructors

theorem isRequested_run (ops : List Operation) (a : Arc) :
    (built ops).IsRequested a ↔ Happens Requests ops a := by
  have hempty : ¬ (∅ : CallGraph).IsRequested a := fun ⟨id, hid⟩ => by cases hid
  exact run_iff_happens hempty (fun h op => h.isRequested_apply op) ops

theorem isStored_run (ops : List Operation) (a : Arc) :
    (built ops).IsStored a ↔ Happens Stores ops a := by
  have hempty : ¬ (∅ : CallGraph).IsStored a := fun ⟨e, he, _⟩ => by cases he
  exact run_iff_happens hempty (fun h op => h.isStored_apply op) ops

/-! ## §4. Queries. -/

theorem WellFormed.mem_storedEdges (h : g.WellFormed) {e : Edge} :
    e ∈ g.storedEdges ↔ ∃ id, g.edges[id]? = some e ∧ id ∈ g.stored.image e.target := by
  unfold storedEdges edgesOf
  rw [List.mem_filterMap]
  constructor
  · intro hstored
    obtain ⟨id, hid, he⟩ := hstored
    obtain ⟨target, hid⟩ := mem_storedIds.mp hid
    exact ⟨id, he, h.target_eq hid he ▸ hid⟩
  · intro hstored
    obtain ⟨id, he, hid⟩ := hstored
    exact ⟨id, mem_storedIds.mpr ⟨_, hid⟩, he⟩

/-- The stored edges are those of the stored arcs, with all their conditions. -/
theorem WellFormed.mem_storedEdges_iff_isStored (h : g.WellFormed) {e : Edge} :
    e ∈ g.storedEdges ↔ g.IsStored e.toArc ∧ g.conditionsAt e.toArc = e.conditions := by
  constructor
  · intro he
    exact ⟨⟨e, he, rfl⟩, h.conditionsAt_toArc he⟩
  · intro hview
    obtain ⟨⟨e', he', harc⟩, hconditions⟩ := hview
    rw [← harc, h.conditionsAt_toArc he'] at hconditions
    have heq : e' = e := by
      cases e
      cases e'
      cases harc
      cases hconditions
      rfl
    rw [← heq]
    exact he'

/-- Graphs with the same stored arcs have the same methods in each class. -/
theorem Indexed.members_eq {g' : CallGraph} (h : g.Indexed) (h' : g'.Indexed)
    (hstored : ∀ a, g.IsStored a ↔ g'.IsStored a) : g.members = g'.members := by
  refine h.members_isProper.ext h'.members_isProper fun className method => ?_
  rw [h.mem_members_iff, h'.mem_members_iff]
  unfold IsEnd
  simp only [hstored]

/-- Found for an arc is the stored edge with its ends. -/
theorem WellFormed.find?_eq_some_iff (h : g.WellFormed) {a : Arc} {e : Edge} :
    g.find? a = some e ↔ e ∈ g.storedEdges ∧ e.toArc = a := by
  have hfind : g.find? a = some e ↔ ∃ id, g.numbers.find? a = some id
      ∧ id ∈ g.stored.image a.target ∧ g.edges[id]? = some e := by
    unfold find?
    cases g.numbers.find? a with
    | none => simp
    | some id => simp
  rw [hfind, h.mem_storedEdges]
  constructor
  · intro hnumber
    obtain ⟨id, hid, hstored, he⟩ := hnumber
    obtain ⟨e', he', rfl⟩ := h.edge_of_number hid
    rw [he] at he'
    cases he'
    exact ⟨⟨id, he, hstored⟩, rfl⟩
  · intro hedge
    obtain ⟨⟨id, he, hstored⟩, rfl⟩ := hedge
    exact ⟨id, h.number_of_edge he, hstored, he⟩

theorem WellFormed.lt_size_of_mem_idsInto (h : g.WellFormed) {target : String} {id : Nat}
    (hid : id ∈ g.idsInto target) : id < g.edges.size := by
  obtain ⟨e, he, _⟩ := h.edge_of_stored hid
  exact (Array.getElem?_eq_some_iff.mp he).1

theorem WellFormed.lt_size_of_mem_storedIds (h : g.WellFormed) {id : Nat}
    (hid : id ∈ g.storedIds) : id < g.edges.size := by
  obtain ⟨target, hid⟩ := mem_storedIds.mp hid
  exact h.lt_size_of_mem_idsInto hid

theorem lt_size_of_mem_leadingIds {method : String} {id : Nat}
    (hid : id ∈ g.leadingIds method) : id < g.edges.size :=
  List.mem_range.mp (Search.mem_graph_of_mem_search hid)

theorem WellFormed.nodup_storedIds (h : g.WellFormed) : g.storedIds.Nodup := by
  unfold storedIds SortedMap.values
  rw [List.flatMap_map, List.nodup_flatMap]
  refine ⟨fun entry _ => entry.2.nodup_toList, ?_⟩
  refine g.stored.increasing.imp_of_mem ?_
  intro a b ha hb hlt id hida hidb
  -- an edge under both targets would have both as its target
  change id ∈ a.2 at hida
  change id ∈ b.2 at hidb
  rw [← Relation.image_of_mem_toList ha] at hida
  rw [← Relation.image_of_mem_toList hb] at hidb
  obtain ⟨e, he, htarget, _⟩ := h.edge_of_stored hida
  rw [← htarget, ← h.target_eq hidb he, Std.ReflOrd.compare_self] at hlt
  cases hlt

theorem WellFormed.nodup_storedEdges (h : g.WellFormed) :
    (g.storedEdges.map Edge.toArc).Nodup := by
  unfold storedEdges edgesOf
  rw [List.map_filterMap]
  refine h.nodup_storedIds.filterMap ?_
  intro id id' a ha ha'
  obtain ⟨e, he, rfl⟩ := Option.map_eq_some_iff.mp ha
  obtain ⟨e', he', heq⟩ := Option.map_eq_some_iff.mp ha'
  have hnumber := h.number_of_edge he
  rw [← heq, h.number_of_edge he'] at hnumber
  exact (Option.some.inj hnumber).symm

theorem WellFormed.length_storedEdges (h : g.WellFormed) :
    g.storedEdges.length = g.countEdges := by
  unfold storedEdges edgesOf countEdges
  refine List.filterMap_length_eq_length.mpr fun id hid => ?_
  rw [Array.getElem?_eq_getElem (h.lt_size_of_mem_storedIds hid)]
  rfl

/-! ## §5. The agreement. -/

/-- After any operations the parts of the graph agree.

Numbers: there are numbers for the arcs that some operation requested, each number
below that of edges is that of one arc, and the edge of this number has the ends of
the arc.

Stored edges: no target is kept without one, and under a target are the numbers of
the edges to it that some operation stored; their ends differ and are not empty.

Classes: the members of a class are the ends of stored edges that it declares,
without constructors.

Queries: every number that they come by is that of an edge, an edge is found for an
arc if it is among the stored ones, no arc is there twice, and all are counted. -/
theorem indexes_agree (ops : List Operation) :
    ((∀ a, (∃ id, (built ops).numbers.find? a = some id) ↔ Happens Requests ops a)
      ∧ (∀ id < (built ops).edges.size, ∃! a, (built ops).numbers.find? a = some id)
      ∧ (∀ a id, (built ops).numbers.find? a = some id →
          ∃ e, (built ops).edges[id]? = some e ∧ e.toArc = a))
    ∧ ((∀ target ids, (built ops).stored.find? target = some ids → ids ≠ ∅)
      ∧ (∀ target id, id ∈ (built ops).stored.image target
          ↔ ∃ e, (built ops).edges[id]? = some e ∧ e.target = target
            ∧ Happens Stores ops e.toArc)
      ∧ (∀ e ∈ (built ops).storedEdges, e.source ≠ "" ∧ e.target ≠ "" ∧ e.source ≠ e.target))
    ∧ (∀ className method, method ∈ (built ops).members.image className
        ↔ (∃ e ∈ (built ops).storedEdges, method = e.source ∨ method = e.target)
          ∧ Signature.denotesConstructor method = false
          ∧ Signature.declaringClass method = className)
    ∧ ((∀ target, ∀ id ∈ (built ops).idsInto target, id < (built ops).edges.size)
      ∧ (∀ id ∈ (built ops).storedIds, id < (built ops).edges.size)
      ∧ (∀ method, ∀ id ∈ (built ops).leadingIds method, id < (built ops).edges.size)
      ∧ (∀ a e, (built ops).find? a = some e ↔ e ∈ (built ops).storedEdges ∧ e.toArc = a)
      ∧ ((built ops).storedEdges.map Edge.toArc).Nodup
      ∧ (built ops).countEdges = (built ops).storedEdges.length) := by
  have h := indexed_run ops
  have hwf := h.toWellFormed
  refine ⟨⟨fun a => isRequested_run ops a, ?_, fun a id hid => h.edge_of_number hid⟩,
    ⟨h.stored_isProper, ?_, ?_⟩, ?_,
    fun target id hid => hwf.lt_size_of_mem_idsInto hid,
    fun id hid => hwf.lt_size_of_mem_storedIds hid,
    fun method id hid => lt_size_of_mem_leadingIds hid,
    fun a e => hwf.find?_eq_some_iff, hwf.nodup_storedEdges, hwf.length_storedEdges.symm⟩
  · -- the edge of a number has one arc, and that has the number
    intro id hid
    have he := Array.getElem?_eq_getElem hid
    refine ⟨_, h.number_of_edge he, ?_⟩
    intro a ha
    obtain ⟨e, he', rfl⟩ := h.edge_of_number ha
    rw [he] at he'
    cases he'
    rfl
  · intro target id
    constructor
    · intro hid
      obtain ⟨e, he, rfl, _⟩ := h.edge_of_stored hid
      exact ⟨e, he, rfl, (isStored_run ops e.toArc).mp
        (h.isStored_iff.mpr ⟨id, h.number_of_edge he, hid⟩)⟩
    · intro hedge
      obtain ⟨e, he, rfl, hstored⟩ := hedge
      obtain ⟨id', hid', hmem⟩ := h.isStored_iff.mp ((isStored_run ops e.toArc).mpr hstored)
      rw [h.number_of_edge he] at hid'
      cases hid'
      exact hmem
  · intro e he
    have hvalid := hwf.isValid_of_isStored ⟨e, he, rfl⟩
    unfold Arc.isValid at hvalid
    simpa [and_assoc] using hvalid
  · intro className method
    rw [h.mem_members_iff]
    unfold IsEnd IsStored
    constructor
    · rintro ⟨⟨_, ⟨e, he, rfl⟩, hend⟩, hclass⟩
      exact ⟨⟨e, he, hend⟩, hclass⟩
    · rintro ⟨⟨e, he, hend⟩, hclass⟩
      exact ⟨⟨e.toArc, ⟨e, he, rfl⟩, hend⟩, hclass⟩

end ApiGuard.CallGraph
