/-
  ApiGuard.Proofs.CallGraph.Growth
  ────────────────────────────────
  Call graphs only grow.

  One graph is within another if each of its edges is there by the same number, with the
  same ends and at least the same conditions, and is stored there if it is stored here.
  Every operation leads to a graph that the one before is within, so that guarded edges and
  the chains to a method are there for good:

      within_apply            no operation drops an edge or a condition
      within_foldl_apply      and so none of a run does
      Within.storedEdges      stored edges are stored later on, with all conditions
      Within.leads            chains of them lead where they led
-/
import ApiGuard.Proofs.CallGraph.Leading
import ApiGuard.Proofs.Guard.Monotone

namespace ApiGuard.CallGraph

/-! ## §1. Graphs within others. -/

/-- The edges of the first graph are edges of the second by the same numbers, with the same
ends and no fewer conditions, and those stored are stored there. -/
structure Within (g g' : CallGraph) : Prop where
  edge : ∀ {id : Nat} {e : Edge}, g.edges[id]? = some e →
    ∃ e', g'.edges[id]? = some e' ∧ e'.toArc = e.toArc ∧ ∀ c ∈ e.conditions, c ∈ e'.conditions
  stored : ∀ {target : String} {id : Nat}, id ∈ g.stored.image target →
    id ∈ g'.stored.image target

theorem Within.refl (g : CallGraph) : g.Within g where
  edge he := ⟨_, he, rfl, fun _ hc => hc⟩
  stored hid := hid

variable {g g' g'' : CallGraph}

theorem Within.trans (h : g.Within g') (h' : g'.Within g'') : g.Within g'' where
  edge he := by
    obtain ⟨e', he', harc, hconditions⟩ := h.edge he
    obtain ⟨e'', he'', harc', hconditions'⟩ := h'.edge he'
    exact ⟨e'', he'', harc'.trans harc, fun c hc => hconditions' c (hconditions c hc)⟩
  stored hid := h'.stored (h.stored hid)

/-! ## §2. Operations. -/

/-- A new edge moves no other. -/
theorem within_intern (g : CallGraph) (arc : Arc) : g.Within (g.intern arc).1 := by
  unfold CallGraph.intern
  split
  next => exact .refl g
  next =>
      -- the new number is above all others
      refine ⟨fun {id e} he => ⟨e, ?_, rfl, fun _ hc => hc⟩, fun hid => hid⟩
      have hlt := (Array.getElem?_eq_some_iff.mp he).1
      rw [Array.getElem?_push, if_neg (by omega), he]

/-- What adds conditions to an edge keeps all others. -/
theorem within_modify (g : CallGraph) (id : Nat) {f : Conditions → Conditions}
    (hf : ∀ cs, ∀ c ∈ cs, c ∈ f cs) :
    g.Within { g with
      edges := g.edges.modify id fun e => { e with conditions := f e.conditions } } := by
  refine ⟨fun {i e} he => ?_, fun hid => hid⟩
  rw [Array.getElem?_modify, he]
  split
  next => exact ⟨_, rfl, rfl, hf e.conditions⟩
  next => exact ⟨e, rfl, rfl, fun _ hc => hc⟩

theorem within_addCondition (g : CallGraph) (id : Nat) (c : PathCondition) :
    g.Within (g.addCondition id c).1 :=
  within_modify g id fun _ _ hc => SortedSet.mem_insert.mpr (.inr hc)

theorem within_extend (g : CallGraph) (id : Nat) (cs : Conditions) : g.Within (g.extend id cs) :=
  within_modify g id fun _ _ hc => SortedSet.mem_union.mpr (.inl hc)

theorem within_store (g : CallGraph) (id : Nat) (target : String) :
    g.Within (g.store id target).1 :=
  ⟨fun he => ⟨_, he, rfl, fun _ hc => hc⟩, fun hid => Relation.mem_image_add.mpr (.inr hid)⟩

/-- The methods entered by class are apart from the edges. -/
theorem within_enterMethod (g : CallGraph) (method : String) : g.Within (g.enterMethod method) := by
  refine ⟨fun he => ?_, fun hid => ?_⟩
  · rw [edges_enterMethod]
    exact ⟨_, he, rfl, fun _ hc => hc⟩
  · rw [stored_enterMethod]
    exact hid

theorem within_add (g : CallGraph) (id : Nat) : g.Within (g.add id).1 := by
  unfold CallGraph.add
  split
  next => exact .refl g
  next e _ =>
      split
      next =>
          exact ((within_store g id e.target).trans (within_enterMethod _ e.source)).trans
            (within_enterMethod _ e.target)
      next => exact .refl g

theorem within_record (g : CallGraph) (arc : Arc) (c : PathCondition) :
    g.Within (g.record arc c).1 :=
  ((within_intern g arc).trans (within_addCondition _ _ c)).trans (within_add _ _)

theorem within_link (g : CallGraph) (arc : Arc) : g.Within (g.link arc).1 := by
  cases hvalid : arc.isValid with
  | true =>
      rw [link_of_isValid g hvalid]
      exact ((within_intern g arc).trans (within_extend _ _ _)).trans (within_store _ _ _)
  | false =>
      rw [link_of_not_isValid g hvalid]
      exact within_intern g arc

theorem within_linkAll (arcs : List Arc) : ∀ {g : CallGraph}, g.Within (g.linkAll arcs).1 := by
  induction arcs with
  | nil => exact fun {g} => .refl g
  | cons arc rest ih =>
      intro g
      rw [linkAll_cons]
      exact (within_link g arc).trans ih

/-- No operation drops an edge or a condition. -/
theorem within_apply (g : CallGraph) (op : Operation) : g.Within (g.apply op) := by
  cases op with
  | intern arc => exact within_intern g arc
  | addCondition id c => exact within_addCondition g id c
  | extend id cs => exact within_extend g id cs
  | add id => exact within_add g id
  | record arc c => exact within_record g arc c
  | linkConstructors => exact within_linkAll g.constructorArcs

theorem within_foldl_apply (ops : List Operation) :
    ∀ (g : CallGraph), g.Within (ops.foldl apply g) := by
  induction ops with
  | nil => exact .refl
  | cons op rest ih => exact fun g => (within_apply g op).trans (ih _)

theorem Reachable.foldl_apply (hg : g.Reachable) (ops : List Operation) :
    (ops.foldl apply g).Reachable := by
  obtain ⟨before, rfl⟩ := hg
  exact ⟨before ++ ops, List.foldl_append⟩

/-! ## §3. What stays. -/

/-- Stored edges are stored later on, with all their conditions. -/
theorem Within.storedEdges (hle : g.Within g') (h : g.WellFormed) (h' : g'.WellFormed) {e : Edge}
    (he : e ∈ g.storedEdges) :
    ∃ e' ∈ g'.storedEdges, e'.toArc = e.toArc ∧ ∀ c ∈ e.conditions, c ∈ e'.conditions := by
  obtain ⟨id, he, hid⟩ := h.mem_storedEdges.mp he
  obtain ⟨e', he', harc, hconditions⟩ := hle.edge he
  have htarget : e'.target = e.target := congrArg Arc.target harc
  exact ⟨e', h'.mem_storedEdges.mpr ⟨id, he', htarget ▸ hle.stored hid⟩, harc, hconditions⟩

/-- Guarded edges are guarded later on. -/
theorem Within.exists_guarded (hle : g.Within g') (h : g.WellFormed) (h' : g'.WellFormed)
    {e : Edge} (he : e ∈ g.storedEdges) (hguarded : e.isGuarded = true) :
    ∃ e' ∈ g'.storedEdges, e'.toArc = e.toArc ∧ e'.isGuarded = true := by
  obtain ⟨e', he', harc, hconditions⟩ := hle.storedEdges h h' he
  obtain ⟨c, hc, hne⟩ := Conditions.isGuarded_iff.mp hguarded
  exact ⟨e', he', harc, Conditions.isGuarded_iff.mpr ⟨c, hconditions c hc, hne⟩⟩

/-- Chains of stored edges lead where they led. -/
theorem Within.leads (hle : g.Within g') (h : g.WellFormed) (h' : g'.WellFormed) {n : Nat} :
    ∀ {m target : String}, g.Leads n m target → g'.Leads n m target := by
  induction n with
  | zero => exact fun heq => heq
  | succ n ih =>
      rintro m target ⟨next, ⟨e, he, harc⟩, hrest⟩
      obtain ⟨e', he', harc', _⟩ := hle.storedEdges h h' he
      exact ⟨next, ⟨e', he', harc'.trans harc⟩, ih hrest⟩

end ApiGuard.CallGraph
