/-
  ApiGuard.Proofs.CallGraph.View
  ──────────────────────────────
  A call graph seen from its arcs: the conditions on the edge of each arc
  (`conditionsAt`), and whether it is stored (`IsStored`).

  In a well-formed graph, to extend the edge of an arc and to store it changes
  what is seen at this arc only, and as expected:

      mem_conditionsAt_extendArc  :
        c ∈ (g.extendArc arc cs).conditionsAt a
          ↔  c ∈ g.conditionsAt a  ∨  (a = arc ∧ c ∈ cs)
      isStored_extendArc          :
        (g.extendArc arc cs).IsStored a
          ↔  g.IsStored a  ∨  (a = arc ∧ arc.isValid)
-/
import ApiGuard.Guard.Calls
import ApiGuard.Proofs.CallGraph.Invariant

namespace ApiGuard.CallGraph

/-! ## §1. The view. -/

/-- The path conditions on the edge of an arc, be it stored or not.  There are
none if the edge was not requested. -/
def conditionsAt (g : CallGraph) (arc : Arc) : Conditions :=
  match g.numbers.find? arc with
  | some id => g.conditionsOf id
  | none => ∅

/-- The edge of the arc is stored. -/
def IsStored (g : CallGraph) (arc : Arc) : Prop := ∃ e ∈ g.storedEdges, e.toArc = arc

variable {g : CallGraph}

theorem mem_storedIds {id : Nat} : id ∈ g.storedIds ↔ ∃ target, id ∈ g.stored.image target := by
  unfold storedIds SortedMap.values
  rw [List.mem_flatMap]
  constructor
  · intro hvalues
    obtain ⟨ids, hids, hid⟩ := hvalues
    obtain ⟨⟨target, ids'⟩, hentry, rfl⟩ := List.mem_map.mp hids
    refine ⟨target, ?_⟩
    rw [Relation.image_of_mem_toList hentry]
    exact hid
  · intro himage
    obtain ⟨target, hid⟩ := himage
    have hentry := SortedMap.mem_toList_iff.mpr (Relation.find?_of_mem_image hid)
    exact ⟨_, List.mem_map.mpr ⟨_, hentry, rfl⟩, hid⟩

theorem WellFormed.target_eq (h : g.WellFormed) {target : String} {id : Nat} {e : Edge}
    (hid : id ∈ g.stored.image target) (he : g.edges[id]? = some e) : e.target = target := by
  obtain ⟨e', he', htarget, _⟩ := h.edge_of_stored hid
  rw [he] at he'
  cases he'
  exact htarget

/-- The edge of a stored arc is under its target, by the number of the arc. -/
theorem WellFormed.isStored_iff (h : g.WellFormed) {a : Arc} :
    g.IsStored a ↔ ∃ id, g.numbers.find? a = some id ∧ id ∈ g.stored.image a.target := by
  unfold IsStored storedEdges edgesOf
  constructor
  · intro hstored
    obtain ⟨e, he, rfl⟩ := hstored
    obtain ⟨id, hid, he⟩ := List.mem_filterMap.mp he
    obtain ⟨target, hid⟩ := mem_storedIds.mp hid
    exact ⟨id, h.number_of_edge he, h.target_eq hid he ▸ hid⟩
  · intro hstored
    obtain ⟨id, hnumber, hid⟩ := hstored
    obtain ⟨e, he, harc⟩ := h.edge_of_number hnumber
    exact ⟨e, List.mem_filterMap.mpr ⟨id, mem_storedIds.mpr ⟨_, hid⟩, he⟩, harc⟩

theorem WellFormed.isValid_of_isStored (h : g.WellFormed) {a : Arc} (ha : g.IsStored a) :
    a.isValid = true := by
  obtain ⟨id, hnumber, hid⟩ := h.isStored_iff.mp ha
  obtain ⟨e, he, harc⟩ := h.edge_of_number hnumber
  obtain ⟨e', he', _, hvalid⟩ := h.edge_of_stored hid
  rw [he] at he'
  cases he'
  rw [← harc]
  exact hvalid

theorem WellFormed.conditionsAt_toArc (h : g.WellFormed) {e : Edge} (he : e ∈ g.storedEdges) :
    g.conditionsAt e.toArc = e.conditions := by
  obtain ⟨id, _, he⟩ := List.mem_filterMap.mp he
  unfold conditionsAt conditionsOf
  rw [h.number_of_edge he]
  simp only [he, Option.map_some, Option.getD_some]

/-! ## §2. Requesting an edge. -/

theorem find?_intern_of_ne {arc a : Arc} (hne : a ≠ arc) :
    (g.intern arc).1.numbers.find? a = g.numbers.find? a := by
  unfold CallGraph.intern
  split
  next => rfl
  next => simp [hne]

theorem stored_intern (arc : Arc) : (g.intern arc).1.stored = g.stored := by
  unfold CallGraph.intern
  split <;> rfl

/-- To request an edge changes no conditions. -/
theorem WellFormed.conditionsAt_intern (h : g.WellFormed) (arc a : Arc) :
    (g.intern arc).1.conditionsAt a = g.conditionsAt a := by
  unfold CallGraph.intern
  split
  next => rfl
  next hnone =>
      unfold conditionsAt conditionsOf
      by_cases ha : a = arc
      · subst ha
        simp [hnone]
      · simp only [SortedMap.find?_insert, ha, if_false]
        cases hnumber : g.numbers.find? a with
        | none => rfl
        | some id =>
            -- the edge was there before, so the new one does not move it
            obtain ⟨e, he, _⟩ := h.edge_of_number hnumber
            have hlt := (Array.getElem?_eq_some_iff.mp he).1
            simp only [Array.getElem?_push, if_neg (Nat.ne_of_lt hlt)]

/-- To request an edge stores nothing. -/
theorem WellFormed.isStored_intern (h : g.WellFormed) (arc a : Arc) :
    (g.intern arc).1.IsStored a ↔ g.IsStored a := by
  rw [(h.intern arc).isStored_iff, h.isStored_iff, stored_intern]
  by_cases ha : a = arc
  · subst ha
    cases hnumber : g.numbers.find? a with
    | some id =>
        have hsame : (g.intern a).1.numbers.find? a = some id := by
          unfold CallGraph.intern
          simp only [hnumber]
        rw [hsame]
    | none =>
        -- the number is new, so nothing is stored by it
        have hsize : (g.intern a).1.numbers.find? a = some g.edges.size := by
          unfold CallGraph.intern
          simp only [hnumber, SortedMap.find?_insert, if_true]
        rw [hsize]
        constructor
        · intro hstored
          obtain ⟨id, hid, hmem⟩ := hstored
          cases hid
          obtain ⟨e, he, _⟩ := h.edge_of_stored hmem
          have hlt := (Array.getElem?_eq_some_iff.mp he).1
          omega
        · intro hstored
          obtain ⟨id, hid, _⟩ := hstored
          cases hid
  · rw [find?_intern_of_ne ha]

/-! ## §3. Extending an edge. -/

/-- To extend an edge adds to the conditions at its arc and at no other. -/
theorem WellFormed.mem_conditionsAt_extend (h : g.WellFormed) {arc a : Arc} {id : Nat}
    (hid : g.numbers.find? arc = some id) {cs : Conditions} {c : PathCondition} :
    c ∈ (g.extend id cs).conditionsAt a ↔ c ∈ g.conditionsAt a ∨ (a = arc ∧ c ∈ cs) := by
  obtain ⟨e, he, harc⟩ := h.edge_of_number hid
  unfold conditionsAt conditionsOf CallGraph.extend
  simp only [Array.getElem?_modify]
  cases hnumber : g.numbers.find? a with
  | none =>
      have hne : a ≠ arc := by
        intro heq
        rw [heq, hid] at hnumber
        cases hnumber
      simp [hne]
  | some i =>
      obtain ⟨e', he', harc'⟩ := h.edge_of_number hnumber
      -- by the invariant numbers are the same just when arcs are
      by_cases heq : id = i
      · subst heq
        rw [he] at he'
        cases he'
        simp [he, ← harc', ← harc]
      · have hne : a ≠ arc := by
          intro ha
          rw [ha, hid] at hnumber
          exact heq (Option.some.inj hnumber)
        simp [heq, hne]

theorem WellFormed.isStored_extend (h : g.WellFormed) (id : Nat) (cs : Conditions) (a : Arc) :
    (g.extend id cs).IsStored a ↔ g.IsStored a := by
  have hextend : (g.extend id cs).WellFormed := h.modify id (·.union cs)
  rw [hextend.isStored_iff, h.isStored_iff]
  rfl

/-! ## §4. Storing an edge. -/

theorem numbers_enterMethod (g : CallGraph) (method : String) :
    (g.enterMethod method).numbers = g.numbers := by
  unfold enterMethod
  split <;> rfl

theorem edges_enterMethod (g : CallGraph) (method : String) :
    (g.enterMethod method).edges = g.edges := by
  unfold enterMethod
  split <;> rfl

theorem stored_enterMethod (g : CallGraph) (method : String) :
    (g.enterMethod method).stored = g.stored := by
  unfold enterMethod
  split <;> rfl

theorem numbers_add (g : CallGraph) (id : Nat) : (g.add id).1.numbers = g.numbers := by
  unfold add
  split
  next => rfl
  next =>
      split
      next => rw [numbers_enterMethod, numbers_enterMethod]; rfl
      next => rfl

theorem edges_add (g : CallGraph) (id : Nat) : (g.add id).1.edges = g.edges := by
  unfold add
  split
  next => rfl
  next =>
      split
      next => rw [edges_enterMethod, edges_enterMethod]; rfl
      next => rfl

theorem conditionsAt_add (g : CallGraph) (id : Nat) (a : Arc) :
    (g.add id).1.conditionsAt a = g.conditionsAt a := by
  unfold conditionsAt conditionsOf
  rw [numbers_add, edges_add]

theorem stored_add {id : Nat} {e : Edge} (he : g.edges[id]? = some e) :
    (g.add id).1.stored
      = if e.isValid = true then g.stored.add e.target id else g.stored := by
  unfold add
  rw [he]
  by_cases hvalid : e.isValid = true
  · simp only [hvalid, if_true, stored_enterMethod]
    rfl
  · simp [hvalid]

/-- To store the edge of an arc stores it if its ends differ and are not empty. -/
theorem WellFormed.isStored_add (h : g.WellFormed) {arc a : Arc} {id : Nat}
    (hid : g.numbers.find? arc = some id) :
    (g.add id).1.IsStored a ↔ g.IsStored a ∨ (a = arc ∧ arc.isValid = true) := by
  obtain ⟨e, he, harc⟩ := h.edge_of_number hid
  rw [(h.add id).isStored_iff, h.isStored_iff, numbers_add, stored_add he]
  have hedge : e.isValid = arc.isValid := congrArg Arc.isValid harc
  rw [hedge, show e.target = arc.target from congrArg Arc.target harc]
  by_cases hvalid : arc.isValid = true
  · simp only [hvalid, if_true, and_true]
    constructor
    · intro hstored
      obtain ⟨i, hi, hmem⟩ := hstored
      rcases Relation.mem_image_add.mp hmem with ⟨_, rfl⟩ | hmem
      · -- the number is that of one arc only
        obtain ⟨e', he', harc'⟩ := h.edge_of_number hi
        rw [he] at he'
        cases he'
        exact .inr (harc'.symm.trans harc)
      · exact .inl ⟨i, hi, hmem⟩
    · intro hstored
      rcases hstored with ⟨i, hi, hmem⟩ | rfl
      · exact ⟨i, hi, Relation.mem_image_add.mpr (.inr hmem)⟩
      · exact ⟨id, hid, Relation.mem_image_add.mpr (.inl ⟨rfl, rfl⟩)⟩
  · simp [hvalid]

/-! ## §5. Extending and storing the edge of an arc. -/

theorem WellFormed.extendArc (h : g.WellFormed) (arc : Arc) (cs : Conditions) :
    (g.extendArc arc cs).WellFormed :=
  ((h.intern arc).modify _ (·.union cs)).add _

/-- At its arc an extended edge has the new conditions besides the old ones. -/
theorem WellFormed.mem_conditionsAt_extendArc (h : g.WellFormed) {arc a : Arc} {cs : Conditions}
    {c : PathCondition} :
    c ∈ (g.extendArc arc cs).conditionsAt a ↔ c ∈ g.conditionsAt a ∨ (a = arc ∧ c ∈ cs) := by
  show c ∈ ((((g.intern arc).1.extend (g.intern arc).2 cs).add (g.intern arc).2).1).conditionsAt a
    ↔ _
  rw [conditionsAt_add, (h.intern arc).mem_conditionsAt_extend (find?_intern g arc),
    h.conditionsAt_intern]

/-- An extended edge is stored if its ends differ and are not empty. -/
theorem WellFormed.isStored_extendArc (h : g.WellFormed) {arc a : Arc} {cs : Conditions} :
    (g.extendArc arc cs).IsStored a ↔ g.IsStored a ∨ (a = arc ∧ arc.isValid = true) := by
  have hextend : ((g.intern arc).1.extend (g.intern arc).2 cs).WellFormed :=
    (h.intern arc).modify _ (·.union cs)
  have hnumber : ((g.intern arc).1.extend (g.intern arc).2 cs).numbers.find? arc
      = some (g.intern arc).2 := find?_intern g arc
  show (((g.intern arc).1.extend (g.intern arc).2 cs).add (g.intern arc).2).1.IsStored a ↔ _
  rw [hextend.isStored_add hnumber, (h.intern arc).isStored_extend, h.isStored_intern]

/-- The other arcs keep their numbers. -/
theorem find?_extendArc_of_ne {arc a : Arc} (cs : Conditions) (hne : a ≠ arc) :
    (g.extendArc arc cs).numbers.find? a = g.numbers.find? a := by
  show (((g.intern arc).1.extend (g.intern arc).2 cs).add (g.intern arc).2).1.numbers.find? a = _
  rw [numbers_add]
  exact find?_intern_of_ne hne

/-- To record a call is to extend its edge by one condition. -/
theorem record_eq_extendArc (g : CallGraph) (arc : Arc) (c : PathCondition) :
    (g.record arc c).1 = g.extendArc arc (.ofList [c]) := rfl

end ApiGuard.CallGraph
