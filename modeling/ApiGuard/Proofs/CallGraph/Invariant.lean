/-
  ApiGuard.Proofs.CallGraph.Invariant
  ───────────────────────────────────
  What holds of every call graph that is built by operations.

  A graph is reachable if a sequence of operations leads to it from the graph
  without edges.  Its numbers are then those of its edges: each requested arc has
  one edge, with these ends, and each edge has one number.  Stored edges are under
  their own target and have ends that differ and are not empty:

      Reachable.wellFormed  :  g.Reachable  →  g.WellFormed
-/
import ApiGuard.CallGraph.Basic

namespace ApiGuard.CallGraph

/-! ## §1. Operations. -/

/-- What one may do to a call graph. -/
inductive Operation where
  /-- Request the edge of an arc. -/
  | intern (arc : Arc)
  /-- Add a path condition to an edge. -/
  | addCondition (id : Nat) (c : PathCondition)
  /-- Add path conditions to an edge. -/
  | extend (id : Nat) (cs : Conditions)
  /-- Store an edge. -/
  | add (id : Nat)
  /-- Record a call. -/
  | record (arc : Arc) (c : PathCondition)
  /-- Expand constructors. -/
  | linkConstructors
  deriving DecidableEq

/-- The graph after an operation. -/
def apply (g : CallGraph) : Operation → CallGraph
  | .intern arc => (g.intern arc).1
  | .addCondition id c => (g.addCondition id c).1
  | .extend id cs => g.extend id cs
  | .add id => (g.add id).1
  | .record arc c => (g.record arc c).1
  | .linkConstructors => g.linkConstructors.1

/-- Some sequence of operations leads to the graph. -/
def Reachable (g : CallGraph) : Prop := ∃ ops : List Operation, ops.foldl apply ∅ = g

theorem reachable_empty : Reachable ∅ := ⟨[], rfl⟩

/-! ## §2. The invariant. -/

/-- Numbers, edges and stored edges fit together. -/
structure WellFormed (g : CallGraph) : Prop where
  /-- The number of an arc is that of an edge with these ends. -/
  edge_of_number : ∀ {arc : Arc} {id : Nat}, g.numbers.find? arc = some id →
    ∃ e, g.edges[id]? = some e ∧ e.toArc = arc
  /-- An edge has the number of its arc. -/
  number_of_edge : ∀ {id : Nat} {e : Edge}, g.edges[id]? = some e →
    g.numbers.find? e.toArc = some id
  /-- A stored edge is under its target, and has ends that differ and are there. -/
  edge_of_stored : ∀ {target : String} {id : Nat}, id ∈ g.stored.image target →
    ∃ e, g.edges[id]? = some e ∧ e.target = target ∧ e.isValid = true

theorem wellFormed_empty : WellFormed ∅ where
  edge_of_number h := by cases h
  number_of_edge h := by cases h
  edge_of_stored h := by cases h

variable {g : CallGraph}

/-- The number of an arc that is requested for the first time is new. -/
theorem WellFormed.not_numbered (h : g.WellFormed) {arc : Arc} {id : Nat} {e : Edge}
    (hnone : g.numbers.find? arc = none) (he : g.edges[id]? = some e) : e.toArc ≠ arc := by
  intro heq
  have hnum := h.number_of_edge he
  rw [heq, hnone] at hnum
  cases hnum

/-- To give an arc an edge keeps the graph in order: an arc with a number keeps its edge, and a
new one gets the next number and an edge without conditions. -/
theorem WellFormed.intern (h : g.WellFormed) (arc : Arc) : (g.intern arc).1.WellFormed := by
  unfold CallGraph.intern
  split
  next => exact h
  next hnone =>
      have hkept : ∀ {i : Nat} {e : Edge}, g.edges[i]? = some e →
          (g.edges.push { arc with })[i]? = some e := by
        intro i e he
        have hlt := (Array.getElem?_eq_some_iff.mp he).1
        rw [Array.getElem?_push, if_neg (by omega), he]
      -- one number and one edge are new, and nothing is stored
      refine ⟨?_, ?_, ?_⟩
      · intro a id hid
        simp only [SortedMap.find?_insert] at hid
        split at hid
        next ha =>
            cases hid
            exact ⟨{ arc with }, Array.getElem?_push_size, ha.symm⟩
        next =>
            obtain ⟨e, he, harc⟩ := h.edge_of_number hid
            exact ⟨e, hkept he, harc⟩
      · intro id e he
        simp only [SortedMap.find?_insert]
        rw [Array.getElem?_push] at he
        split at he
        next hid =>
            cases he
            rw [if_pos rfl, hid]
        next => rw [if_neg (h.not_numbered hnone he), h.number_of_edge he]
      · intro target id hid
        obtain ⟨e, he, htarget, hvalid⟩ := h.edge_of_stored hid
        exact ⟨e, hkept he, htarget, hvalid⟩

/-- What only changes conditions keeps the invariant. -/
theorem WellFormed.modify (h : g.WellFormed) (id : Nat) (f : Conditions → Conditions) :
    WellFormed { g with
      edges := g.edges.modify id fun e => { e with conditions := f e.conditions } } := by
  have hmodify : ∀ {i : Nat} {e : Edge}, g.edges[i]? = some e →
      ∃ e', (g.edges.modify id fun e => { e with conditions := f e.conditions })[i]? = some e'
        ∧ e'.toArc = e.toArc := by
    intro i e he
    rw [Array.getElem?_modify, he]
    split
    next => exact ⟨_, rfl, rfl⟩
    next => exact ⟨e, rfl, rfl⟩
  -- the edges keep their ends, and these are all that the invariant is about
  refine ⟨?_, ?_, ?_⟩
  · intro arc i hi
    obtain ⟨e, he, harc⟩ := h.edge_of_number hi
    obtain ⟨e', he', heq⟩ := hmodify he
    exact ⟨e', he', heq.trans harc⟩
  · intro i e he
    rw [Array.getElem?_modify] at he
    split at he
    next =>
        obtain ⟨old, hold, rfl⟩ := Option.map_eq_some_iff.mp he
        have hnumber := h.number_of_edge hold
        exact hnumber
    next => exact h.number_of_edge he
  · intro target i hi
    obtain ⟨e, he, htarget, hvalid⟩ := h.edge_of_stored hi
    obtain ⟨e', he', heq⟩ := hmodify he
    refine ⟨e', he', ?_, ?_⟩
    · rw [← htarget]
      exact congrArg Arc.target heq
    · rw [← hvalid]
      exact congrArg Arc.isValid heq

theorem WellFormed.store (h : g.WellFormed) {id : Nat} {e : Edge} (he : g.edges[id]? = some e)
    (hvalid : e.isValid = true) : (g.store id e.target).1.WellFormed := by
  refine ⟨h.edge_of_number, h.number_of_edge, ?_⟩
  intro target i hi
  rcases Relation.mem_image_add.mp hi with ⟨rfl, rfl⟩ | hi
  · exact ⟨e, he, rfl, hvalid⟩
  · exact h.edge_of_stored hi

theorem WellFormed.enterMethod (h : g.WellFormed) (method : String) :
    (g.enterMethod method).WellFormed := by
  unfold CallGraph.enterMethod
  split
  next => exact h
  next => exact ⟨h.edge_of_number, h.number_of_edge, h.edge_of_stored⟩

theorem WellFormed.add (h : g.WellFormed) (id : Nat) : (g.add id).1.WellFormed := by
  unfold CallGraph.add
  split
  next => exact h
  next e he =>
      split
      next hvalid => exact ((h.store he hvalid).enterMethod e.source).enterMethod e.target
      next => exact h

theorem WellFormed.record (h : g.WellFormed) (arc : Arc) (c : PathCondition) :
    (g.record arc c).1.WellFormed :=
  ((h.intern arc).modify _ (·.insert c)).add _

/-! ## §3. Reachable graphs. -/

theorem find?_intern (g : CallGraph) (arc : Arc) :
    (g.intern arc).1.numbers.find? arc = some (g.intern arc).2 := by
  unfold CallGraph.intern
  split
  next hsome => exact hsome
  next => simp

/-- To link an arc is to give it an edge, to add a condition to it and to store it, each of which
keeps the graph in order. -/
theorem WellFormed.link (h : g.WellFormed) (arc : Arc) : (g.link arc).1.WellFormed := by
  have hintern := h.intern arc
  have hnumber := find?_intern g arc
  unfold CallGraph.link
  split
  next g' id hg' =>
      rw [hg'] at hintern hnumber
      split
      next hvalid =>
          have hmodify := hintern.modify id (·.insert ∅)
          obtain ⟨e, he, harc⟩ := hmodify.edge_of_number hnumber
          have hstore := hmodify.store he (by rw [← hvalid, ← harc])
          rw [harc] at hstore
          exact hstore
      next => exact hintern

theorem WellFormed.linkAll (h : g.WellFormed) (arcs : List Arc) :
    (g.linkAll arcs).1.WellFormed := by
  unfold CallGraph.linkAll
  -- the count goes along with the graph
  generalize 0 = n
  induction arcs generalizing g n with
  | nil => exact h
  | cons arc rest ih => exact ih (h.link arc) _

theorem WellFormed.apply (h : g.WellFormed) (op : Operation) : (g.apply op).WellFormed := by
  cases op with
  | intern arc => exact h.intern arc
  | addCondition id c => exact h.modify id (·.insert c)
  | extend id cs => exact h.modify id (·.union cs)
  | add id => exact h.add id
  | record arc c => exact h.record arc c
  | linkConstructors => exact h.linkAll g.constructorArcs

/-- What is built by operations is well-formed. -/
theorem Reachable.wellFormed (h : g.Reachable) : g.WellFormed := by
  obtain ⟨ops, rfl⟩ := h
  -- from any well-formed graph, so that the induction may move on
  have hops : ∀ (ops : List Operation) {g : CallGraph}, g.WellFormed →
      (ops.foldl CallGraph.apply g).WellFormed := by
    intro ops
    induction ops with
    | nil => exact fun h => h
    | cons op rest ih => exact fun h => ih (h.apply op)
  exact hops ops wellFormed_empty

end ApiGuard.CallGraph
