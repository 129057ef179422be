/-
  ApiGuard.Proofs.CallGraph.Linking
  ─────────────────────────────────
  What linking arcs does to a call graph.

  To link an arc is to put the empty condition on its edge and to store it, if its
  ends differ and are not empty.  It changes nothing that is seen at another arc,
  so that many arcs may be linked in any order, and the number of changes is that
  of the arcs for which something changes on its own:

      isStored_linkAll          the edges stored afterwards
      mem_conditionsAt_linkAll  and their conditions
      linkAll_snd               the number of changes
-/
import ApiGuard.Proofs.CallGraph.View

namespace ApiGuard.CallGraph

variable {g : CallGraph}

/-! ## §1. Linking an arc. -/

theorem members_intern (g : CallGraph) (arc : Arc) : (g.intern arc).1.members = g.members := by
  unfold CallGraph.intern
  split <;> rfl

/-- The edge of a valid arc gets the empty condition and is stored. -/
theorem link_of_isValid (g : CallGraph) {arc : Arc} (hvalid : arc.isValid = true) :
    (g.link arc).1 = (((g.intern arc).1.extend (g.intern arc).2 (.ofList [∅])).store
      (g.intern arc).2 arc.target).1 := by
  unfold CallGraph.link
  simp only [hvalid, if_true]
  rfl

/-- The edge of another arc is only requested. -/
theorem link_of_not_isValid (g : CallGraph) {arc : Arc} (hvalid : arc.isValid = false) :
    g.link arc = ((g.intern arc).1, false) := by
  unfold CallGraph.link
  simp [hvalid]

theorem numbers_link (g : CallGraph) (arc : Arc) :
    (g.link arc).1.numbers = (g.intern arc).1.numbers := by
  cases hvalid : arc.isValid with
  | true => rw [link_of_isValid g hvalid]; rfl
  | false => rw [link_of_not_isValid g hvalid]

theorem members_link (g : CallGraph) (arc : Arc) : (g.link arc).1.members = g.members := by
  cases hvalid : arc.isValid with
  | true =>
      rw [link_of_isValid g hvalid]
      exact members_intern g arc
  | false =>
      rw [link_of_not_isValid g hvalid]
      exact members_intern g arc

/-- To store the edge of a valid arc is to add it, as far as stored edges go. -/
theorem WellFormed.isStored_store (h : g.WellFormed) {arc a : Arc} {id : Nat}
    (hid : g.numbers.find? arc = some id) (hvalid : arc.isValid = true) :
    (g.store id arc.target).1.IsStored a ↔ (g.add id).1.IsStored a := by
  obtain ⟨e, he, rfl⟩ := h.edge_of_number hid
  unfold IsStored storedEdges edgesOf storedIds
  rw [edges_add, stored_add he, if_pos hvalid]
  rfl

/-- To link an arc stores it if it is valid, and no other. -/
theorem WellFormed.isStored_link (h : g.WellFormed) {arc a : Arc} :
    (g.link arc).1.IsStored a ↔ g.IsStored a ∨ (a = arc ∧ arc.isValid = true) := by
  cases hvalid : arc.isValid with
  | true =>
      -- to link a valid arc is to extend its edge and store it
      have hextend : ((g.intern arc).1.extend (g.intern arc).2 (.ofList [∅])).WellFormed :=
        (h.intern arc).modify _ (·.union (.ofList [∅]))
      have hstored : (g.extendArc arc (.ofList [∅])).IsStored a
          ↔ g.IsStored a ∨ (a = arc ∧ arc.isValid = true) := h.isStored_extendArc
      rw [hvalid] at hstored
      rw [link_of_isValid g hvalid, hextend.isStored_store (find?_intern g arc) hvalid]
      exact hstored
  | false =>
      rw [link_of_not_isValid g hvalid, h.isStored_intern]
      simp

theorem WellFormed.mem_conditionsAt_link (h : g.WellFormed) {arc a : Arc} {c : PathCondition} :
    c ∈ (g.link arc).1.conditionsAt a
      ↔ c ∈ g.conditionsAt a ∨ (a = arc ∧ arc.isValid = true ∧ c = ∅) := by
  cases hvalid : arc.isValid with
  | true =>
      rw [link_of_isValid g hvalid]
      show c ∈ ((g.intern arc).1.extend (g.intern arc).2 (.ofList [∅])).conditionsAt a ↔ _
      rw [(h.intern arc).mem_conditionsAt_extend (find?_intern g arc), h.conditionsAt_intern]
      simp
  | false =>
      rw [link_of_not_isValid g hvalid, h.conditionsAt_intern]
      simp

/-- Something changes if the edge was not stored, or not unconditional. -/
theorem WellFormed.link_snd (h : g.WellFormed) {arc : Arc} :
    (g.link arc).2 = true
      ↔ arc.isValid = true ∧ (¬ g.IsStored arc ∨ ∅ ∉ g.conditionsAt arc) := by
  cases hvalid : arc.isValid with
  | true =>
      -- a request alone stores nothing and adds no condition
      have hstored : (g.intern arc).2 ∈ g.stored.image arc.target ↔ g.IsStored arc := by
        rw [← h.isStored_intern arc arc, (h.intern arc).isStored_iff, stored_intern, find?_intern]
        simp
      have hconditions : (g.intern arc).1.conditionsOf (g.intern arc).2 = g.conditionsAt arc := by
        rw [← h.conditionsAt_intern arc arc]
        unfold conditionsAt
        rw [find?_intern]
      have hchange : (g.link arc).2
          = (!((g.intern arc).1.stored.image arc.target).contains (g.intern arc).2
            || !((g.intern arc).1.conditionsOf (g.intern arc).2).contains ∅) := by
        unfold CallGraph.link
        simp only [hvalid, if_true]
        rfl
      rw [hchange, stored_intern, hconditions, ← hstored]
      simp only [Bool.or_eq_true, Bool.not_eq_true', Bool.eq_false_iff, ne_eq,
        SortedSet.contains_iff, true_and]
  | false =>
      rw [link_of_not_isValid g hvalid]
      simp

/-! ## §2. Linking arcs one after the other. -/

/-- A count that goes along with the graphs may start anywhere. -/
theorem foldl_counting {step : CallGraph × Nat → Arc → CallGraph × Nat}
    (hstep : ∀ g n arc,
      step (g, n) arc = ((g.link arc).1, n + if (g.link arc).2 then 1 else 0))
    (arcs : List Arc) :
    ∀ (g : CallGraph) (n : Nat), arcs.foldl step (g, n)
      = ((arcs.foldl step (g, 0)).1, n + (arcs.foldl step (g, 0)).2) := by
  induction arcs with
  | nil => intro g n; rfl
  | cons arc rest ih =>
      intro g n
      -- both sides start the rest with the change of the first arc in the count
      rw [List.foldl_cons, List.foldl_cons, hstep, hstep, ih, ih _ (0 + _)]
      simp only [Nat.zero_add, Nat.add_assoc]

theorem linkAll_cons (g : CallGraph) (arc : Arc) (rest : List Arc) :
    g.linkAll (arc :: rest)
      = (((g.link arc).1.linkAll rest).1,
          (if (g.link arc).2 then 1 else 0) + ((g.link arc).1.linkAll rest).2) := by
  unfold linkAll
  rw [List.foldl_cons]
  refine foldl_counting ?_ rest (g.link arc).1 (if (g.link arc).2 then 1 else 0)
  intro g n arc
  show ((g.link arc).1, if (g.link arc).2 then n + 1 else n) = _
  cases (g.link arc).2 <;> rfl

theorem members_linkAll (arcs : List Arc) :
    ∀ {g : CallGraph}, (g.linkAll arcs).1.members = g.members := by
  induction arcs with
  | nil => exact rfl
  | cons arc rest ih =>
      intro g
      rw [linkAll_cons]
      exact ih.trans (members_link g arc)

theorem isStored_linkAll {a : Arc} (arcs : List Arc) :
    ∀ {g : CallGraph}, g.WellFormed →
      ((g.linkAll arcs).1.IsStored a
        ↔ g.IsStored a ∨ (a ∈ arcs ∧ a.isValid = true)) := by
  induction arcs with
  | nil => intro g _; simp [linkAll]
  | cons arc rest ih =>
      intro g h
      rw [linkAll_cons]
      show ((g.link arc).1.linkAll rest).1.IsStored a ↔ _
      rw [ih (h.link arc), h.isStored_link, List.mem_cons]
      grind

theorem mem_conditionsAt_linkAll {a : Arc} {c : PathCondition} (arcs : List Arc) :
    ∀ {g : CallGraph}, g.WellFormed →
      (c ∈ (g.linkAll arcs).1.conditionsAt a
        ↔ c ∈ g.conditionsAt a ∨ (a ∈ arcs ∧ a.isValid = true ∧ c = ∅)) := by
  induction arcs with
  | nil => intro g _; simp [linkAll]
  | cons arc rest ih =>
      intro g h
      rw [linkAll_cons]
      show c ∈ ((g.link arc).1.linkAll rest).1.conditionsAt a ↔ _
      rw [ih (h.link arc), h.mem_conditionsAt_link, List.mem_cons]
      grind

/-- Whether linking an arc changes something does not depend on another one linked
before. -/
theorem WellFormed.link_snd_of_ne (h : g.WellFormed) {arc a : Arc} (hne : a ≠ arc) :
    ((g.link arc).1.link a).2 = (g.link a).2 := by
  have hconditions : ∅ ∈ (g.link arc).1.conditionsAt a ↔ ∅ ∈ g.conditionsAt a := by
    rw [h.mem_conditionsAt_link]
    simp [hne]
  rw [Bool.eq_iff_iff, (h.link arc).link_snd, h.link_snd, h.isStored_link, hconditions]
  simp [hne]

/-- If no arc is linked twice, those are counted for which something changes in the
graph as it was. -/
theorem linkAll_snd {arcs : List Arc} (hnodup : arcs.Nodup) :
    ∀ {g : CallGraph}, g.WellFormed →
      (g.linkAll arcs).2 = (arcs.filter fun a => (g.link a).2).length := by
  induction arcs with
  | nil => intro g _; rfl
  | cons arc rest ih =>
      intro g h
      obtain ⟨hnew, hrest⟩ := List.nodup_cons.mp hnodup
      -- the first arc is not among the rest, so that it does not matter there
      have hsame : rest.filter (fun a => ((g.link arc).1.link a).2)
          = rest.filter fun a => (g.link a).2 :=
        List.filter_congr fun a ha => h.link_snd_of_ne fun heq => hnew (heq ▸ ha)
      rw [linkAll_cons]
      show _ + ((g.link arc).1.linkAll rest).2 = _
      rw [ih hrest (h.link arc), hsame, List.filter_cons]
      cases (g.link arc).2 <;> simp [Nat.add_comm]

end ApiGuard.CallGraph
