/-
  ApiGuard.Proofs.CallGraph.Constructors
  ──────────────────────────────────────
  Linking constructors closes a call graph, whenever it is done.

  The arcs that are linked lead from constructors to methods that are none, so they
  make no further constructor a target and bring no further method into a class:

      isConstructorArc_or        linked arcs give rise to no others
      exists_holds               so recorded calls decide what is stored
      linkConstructors_closure   in whatever order they come, and whenever
                                 constructors are linked between them
-/
import ApiGuard.Proofs.CallGraph.Indexes
import Mathlib.Data.List.Induction

namespace ApiGuard.CallGraph

variable {g : CallGraph}

/-! ## §1. Arcs from constructors. -/

theorem IsConstructorArc.mono {S S' : Arc → Prop} (hle : ∀ b, S b → S' b) {a : Arc}
    (ha : IsConstructorArc S a) : IsConstructorArc S' a := by
  obtain ⟨hctor, ⟨b, hb, hcalled⟩, hno, ⟨b', hb', hend⟩, hclass⟩ := ha
  exact ⟨hctor, ⟨b, hle b hb, hcalled⟩, hno, ⟨b', hle b' hb', hend⟩, hclass⟩

/-- Arcs from constructors give rise to no others. -/
theorem isConstructorArc_or {S L : Arc → Prop} (hL : ∀ b, L b → IsConstructorArc S b)
    {a : Arc} : IsConstructorArc (fun b => S b ∨ L b) a ↔ IsConstructorArc S a := by
  constructor
  · intro ha
    obtain ⟨hctor, ⟨b, hb, hcalled⟩, hno, ⟨b', hb', hend⟩, hclass⟩ := ha
    -- the target of an arc in `L` is no constructor, so the call is one of `S`
    have hcall : S b := by
      rcases hb with hb | hb
      · exact hb
      · obtain ⟨_, _, htarget, _⟩ := hL b hb
        rw [hcalled, hctor] at htarget
        cases htarget
    refine ⟨hctor, ⟨b, hcall, hcalled⟩, hno, ?_, hclass⟩
    rcases hb' with hb' | hb'
    · exact ⟨b', hb', hend⟩
    · -- the source of an arc in `L` is a constructor, and the target an end in `S`
      obtain ⟨hsource, _, _, htarget, _⟩ := hL b' hb'
      rcases hend with heq | heq
      · rw [heq, hsource] at hno
        cases hno
      · rw [heq]
        exact htarget
  · exact IsConstructorArc.mono fun b hb => .inl hb

/-! ## §2. Linking constructors once. -/

theorem Indexed.mem_conditionsAt_linkConstructors (h : g.Indexed) {a : Arc}
    {c : PathCondition} :
    c ∈ g.linkConstructors.1.conditionsAt a
      ↔ c ∈ g.conditionsAt a ∨ (IsConstructorArc g.IsStored a ∧ c = ∅) := by
  unfold CallGraph.linkConstructors
  rw [mem_conditionsAt_linkAll _ h.toWellFormed, h.mem_constructorArcs]
  constructor
  · exact Or.imp_right fun ha => ⟨ha.1, ha.2.2⟩
  · exact Or.imp_right fun ha => ⟨ha.1, h.isValid_of_isConstructorArc ha.1, ha.2⟩

/-- No arc is to be linked twice. -/
theorem nodup_constructorArcs (g : CallGraph) : g.constructorArcs.Nodup := by
  unfold constructorArcs
  rw [List.nodup_flatMap]
  constructor
  · -- the arcs of one constructor differ in their targets
    intro ctor _
    refine (SortedSet.nodup_toList _).map ?_
    intro m m' heq
    exact congrArg Arc.target heq
  · -- those of two constructors in their sources
    refine (g.stored.nodup_keys.filter _).imp ?_
    intro ctor ctor' hne a ha ha'
    obtain ⟨_, _, rfl⟩ := List.mem_map.mp ha
    obtain ⟨_, _, heq⟩ := List.mem_map.mp ha'
    exact hne (congrArg Arc.source heq).symm

/-- Counted are the arcs from constructors that were not stored, or not
unconditional. -/
theorem Indexed.linkConstructors_snd (h : g.Indexed) :
    ∃ changed : List Arc, changed.Nodup
      ∧ (∀ a, a ∈ changed ↔ IsConstructorArc g.IsStored a
          ∧ (¬ g.IsStored a ∨ ∅ ∉ g.conditionsAt a))
      ∧ g.linkConstructors.2 = changed.length := by
  refine ⟨g.constructorArcs.filter fun a => (g.link a).2,
    (nodup_constructorArcs g).filter _, ?_,
    linkAll_snd (nodup_constructorArcs g) h.toWellFormed⟩
  intro a
  rw [List.mem_filter, h.mem_constructorArcs, h.link_snd]
  constructor
  · exact fun ha => ⟨ha.1, ha.2.2⟩
  · exact fun ha => ⟨ha.1, h.isValid_of_isConstructorArc ha.1, ha.2⟩

/-! ## §3. Linking constructors twice. -/

/-- Conditions that an edge has already do not change the graph. -/
theorem extend_eq_self {id : Nat} {e : Edge} {cs : Conditions} (he : g.edges[id]? = some e)
    (hcs : ∀ c ∈ cs, c ∈ e.conditions) : g.extend id cs = g := by
  have hunion : e.conditions.union cs = e.conditions := by
    refine SortedSet.ext fun c => ?_
    rw [SortedSet.mem_union]
    exact or_iff_left_of_imp (hcs c)
  have hedges : (g.edges.modify id fun e => { e with conditions := e.conditions.union cs })
      = g.edges := by
    refine Array.ext_getElem? fun i => ?_
    rw [Array.getElem?_modify]
    split
    next heq =>
        subst heq
        rw [he, Option.map_some, hunion]
    next => rfl
  unfold CallGraph.extend
  rw [hedges]

/-- To link an arc that is stored and unconditional changes nothing and does not count. -/
theorem WellFormed.link_eq_self (h : g.WellFormed) {arc : Arc} (hstored : g.IsStored arc)
    (hempty : ∅ ∈ g.conditionsAt arc) : g.link arc = (g, false) := by
  obtain ⟨id, hid, hmem⟩ := h.isStored_iff.mp hstored
  obtain ⟨e, he, _⟩ := h.edge_of_number hid
  have hconditions : ∅ ∈ e.conditions := by
    unfold conditionsAt conditionsOf at hempty
    rw [hid] at hempty
    simpa only [he, Option.map_some, Option.getD_some] using hempty
  have hintern : g.intern arc = (g, id) := by
    unfold CallGraph.intern
    rw [hid]
  -- the edge is there, has the condition and is stored already
  have hgraph : (g.link arc).1 = g := by
    rw [link_of_isValid g (h.isValid_of_isStored hstored), hintern]
    show ((g.extend id (.ofList [∅])).store id arc.target).1 = g
    rw [extend_eq_self he (by simpa using hconditions)]
    unfold CallGraph.store
    rw [Relation.add_of_mem_image hmem]
  have hcount : (g.link arc).2 = false := by
    rw [Bool.eq_false_iff, ne_eq, h.link_snd]
    exact fun hchange => hchange.2.elim (fun hnot => hnot hstored) fun hnot => hnot hempty
  exact Prod.ext hgraph hcount

theorem WellFormed.linkAll_eq_self (h : g.WellFormed) {arcs : List Arc}
    (harcs : ∀ a ∈ arcs, g.IsStored a ∧ ∅ ∈ g.conditionsAt a) : g.linkAll arcs = (g, 0) := by
  induction arcs with
  | nil => rfl
  | cons arc rest ih =>
      obtain ⟨hstored, hempty⟩ := harcs arc List.mem_cons_self
      rw [linkAll_cons, h.link_eq_self hstored hempty,
        ih fun a ha => harcs a (List.mem_cons_of_mem _ ha)]
      rfl

theorem Indexed.linkConstructors_linkConstructors (h : g.Indexed) :
    g.linkConstructors.1.linkConstructors = (g.linkConstructors.1, 0) := by
  have hlinked := h.linkConstructors
  refine hlinked.toWellFormed.linkAll_eq_self fun a ha => ?_
  -- the arcs to link now were linked, for the linked ones gave rise to no others
  have hold : IsConstructorArc g.IsStored a := by
    have hnew := hlinked.mem_constructorArcs.mp ha
    rw [show g.linkConstructors.1.IsStored = fun b => g.IsStored b ∨ IsConstructorArc g.IsStored b
      from funext fun b => propext h.isStored_linkConstructors] at hnew
    exact (isConstructorArc_or fun b hb => hb).mp hnew
  exact ⟨h.isStored_linkConstructors.mpr (.inr hold),
    h.mem_conditionsAt_linkConstructors.mpr (.inr ⟨hold, rfl⟩)⟩

/-! ## §4. Recording and linking in any order. -/

/-- Does the operation record a call? -/
def Operation.isRecord : Operation → Bool
  | .record _ _ => true
  | _ => false

/-- A call of the arc is recorded that can be stored. -/
def IsRecorded (ops : List Operation) (a : Arc) : Prop :=
  a.isValid = true ∧ ∃ c, Operation.record a c ∈ ops

theorem mem_concat_linkConstructors {ops : List Operation} {a : Arc} {c : PathCondition} :
    Operation.record a c ∈ ops ++ [.linkConstructors] ↔ Operation.record a c ∈ ops := by
  simp

theorem isRecorded_concat_linkConstructors (ops : List Operation) :
    IsRecorded (ops ++ [.linkConstructors]) = IsRecorded ops := by
  funext a
  unfold IsRecorded
  simp only [mem_concat_linkConstructors]

theorem mem_concat_record {ops : List Operation} {a arc : Arc} {c c' : PathCondition} :
    Operation.record a c ∈ ops ++ [.record arc c']
      ↔ Operation.record a c ∈ ops ∨ (a = arc ∧ c = c') := by
  simp

/-- In the graph are the calls recorded by the operations, and the arcs `Linked`
from constructors so far. -/
structure Holds (g : CallGraph) (ops : List Operation) (Linked : Arc → Prop) : Prop where
  linked : ∀ a, Linked a → IsConstructorArc (IsRecorded ops) a
  stored : ∀ a, g.IsStored a ↔ IsRecorded ops a ∨ Linked a
  conditions : ∀ a c,
    c ∈ g.conditionsAt a ↔ Operation.record a c ∈ ops ∨ (Linked a ∧ c = ∅)

/-- In the graph without methods nothing is recorded and nothing is linked. -/
theorem holds_empty : Holds ∅ [] fun _ => False where
  linked := fun a ha => ha.elim
  stored := by
    intro a
    constructor
    · rintro ⟨e, he, _⟩
      cases he
    · rintro (⟨_, c, hc⟩ | ha)
      · cases hc
      · exact ha.elim
  conditions := by
    intro a c
    constructor
    · intro hc
      exact absurd hc (SortedSet.not_mem_empty c)
    · rintro (hc | ⟨ha, _⟩)
      · cases hc
      · exact ha.elim

theorem Holds.isConstructorArc_iff {ops : List Operation} {Linked : Arc → Prop}
    (h : Holds g ops Linked) {a : Arc} :
    IsConstructorArc g.IsStored a ↔ IsConstructorArc (IsRecorded ops) a := by
  rw [show g.IsStored = fun b => IsRecorded ops b ∨ Linked b
    from funext fun b => propext (h.stored b)]
  exact isConstructorArc_or h.linked

/-- A recorded call is held from then on, and what is linked stays the same. -/
theorem Holds.record {ops : List Operation} {Linked : Arc → Prop} (h : Holds g ops Linked)
    (hg : g.WellFormed) (arc : Arc) (c : PathCondition) :
    Holds (g.record arc c).1 (ops ++ [.record arc c]) Linked := by
  have hrecorded : ∀ a, IsRecorded (ops ++ [.record arc c]) a
      ↔ IsRecorded ops a ∨ (a = arc ∧ arc.isValid = true) := by
    intro a
    unfold IsRecorded
    simp only [mem_concat_record]
    grind
  refine ⟨?_, ?_, ?_⟩
  · exact fun a ha => (h.linked a ha).mono fun b hb => (hrecorded b).mpr (.inl hb)
  · intro a
    rw [record_eq_extendArc, hg.isStored_extendArc, h.stored, hrecorded]
    grind
  · intro a c'
    rw [record_eq_extendArc, hg.mem_conditionsAt_extendArc, h.conditions, mem_concat_record,
      SortedSet.mem_ofList, List.mem_singleton]
    grind

/-- By linking, all arcs from constructors are linked. -/
theorem Holds.linkConstructors {ops : List Operation} {Linked : Arc → Prop}
    (h : Holds g ops Linked) (hg : g.Indexed) :
    Holds g.linkConstructors.1 (ops ++ [.linkConstructors])
      (IsConstructorArc (IsRecorded ops)) := by
  have hrecorded := isRecorded_concat_linkConstructors ops
  have hlinked := h.linked
  refine ⟨?_, ?_, ?_⟩
  · intro a ha
    rw [hrecorded]
    exact ha
  · intro a
    rw [hg.isStored_linkConstructors, h.stored, h.isConstructorArc_iff, hrecorded]
    grind
  · intro a c
    rw [hg.mem_conditionsAt_linkConstructors, h.conditions, h.isConstructorArc_iff,
      mem_concat_linkConstructors]
    grind

theorem exists_holds {ops : List Operation}
    (hops : ∀ op ∈ ops, op.isRecord = true ∨ op = .linkConstructors) :
    ∃ Linked, Holds (built ops) ops Linked := by
  induction ops using List.reverseRecOn with
  | nil => exact ⟨_, holds_empty⟩
  | append_singleton ops op ih =>
      obtain ⟨Linked, h⟩ := ih fun op hop => hops op (List.mem_append_left _ hop)
      rw [built_concat]
      -- a call keeps what was linked before, and linking makes it all there is to link
      rcases hops op (List.mem_append_right _ List.mem_cons_self) with hrecord | rfl
      · cases op with
        | record arc c => exact ⟨Linked, h.record (indexed_run ops).toWellFormed arc c⟩
        | _ => cases hrecord
      · exact ⟨_, h.linkConstructors (indexed_run ops)⟩

/-- After a last linking the recorded calls alone decide what is seen. -/
theorem holds_closed {ops : List Operation}
    (hops : ∀ op ∈ ops, op.isRecord = true ∨ op = .linkConstructors) :
    Holds (built (ops ++ [.linkConstructors])) ops (IsConstructorArc (IsRecorded ops)) := by
  obtain ⟨_, hbefore⟩ := exists_holds hops
  have hclosed := hbefore.linkConstructors (indexed_run ops)
  refine ⟨fun a ha => ha, ?_, ?_⟩
  · intro a
    have hstored := hclosed.stored a
    rw [isRecorded_concat_linkConstructors] at hstored
    rw [built_concat]
    exact hstored
  · intro a c
    rw [built_concat, ← mem_concat_linkConstructors]
    exact hclosed.conditions a c

/-- The last linking of constructors decides, together with the recorded calls.

The same edges are stored, with the same conditions, and the same methods are in
each class if the calls alone are recorded, in any order, and constructors linked
once after them.

Stored are the recorded arcs, as far as their ends differ and are not empty, and
the arcs from constructors among these; none of the latter gives rise to another.
A stored edge has its recorded conditions, and the empty one if it is from a
constructor.

Counted are the arcs from constructors that were not stored before, or not
unconditional, and linking once more changes nothing. -/
theorem linkConstructors_closure {ops records : List Operation}
    (hops : ∀ op ∈ ops, op.isRecord = true ∨ op = .linkConstructors)
    (hrecords : records.Perm (ops.filter Operation.isRecord)) :
    ((∀ e, e ∈ (built (ops ++ [.linkConstructors])).storedEdges
        ↔ e ∈ (built (records ++ [.linkConstructors])).storedEdges)
      ∧ (built (ops ++ [.linkConstructors])).members
        = (built (records ++ [.linkConstructors])).members)
    ∧ ((∀ a, (built (ops ++ [.linkConstructors])).IsStored a
          ↔ IsRecorded ops a ∨ IsConstructorArc (IsRecorded ops) a)
      ∧ (∀ a, IsConstructorArc (built (ops ++ [.linkConstructors])).IsStored a
          ↔ IsConstructorArc (IsRecorded ops) a)
      ∧ (∀ e ∈ (built (ops ++ [.linkConstructors])).storedEdges, ∀ c, c ∈ e.conditions
          ↔ Operation.record e.toArc c ∈ ops
            ∨ (IsConstructorArc (IsRecorded ops) e.toArc ∧ c = ∅)))
    ∧ (∃ changed : List Arc, changed.Nodup
        ∧ (∀ a, a ∈ changed ↔ IsConstructorArc (IsRecorded ops) a
            ∧ (¬ (built ops).IsStored a ∨ ∅ ∉ (built ops).conditionsAt a))
        ∧ (built ops).linkConstructors.2 = changed.length)
    ∧ (built (ops ++ [.linkConstructors])).linkConstructors
        = (built (ops ++ [.linkConstructors]), 0) := by
  have hindexed := indexed_run (ops ++ [.linkConstructors])
  have hindexed' := indexed_run (records ++ [.linkConstructors])
  have hclosed := holds_closed hops
  -- the same calls are recorded, and nothing else matters
  have hmem : ∀ a c, Operation.record a c ∈ records ↔ Operation.record a c ∈ ops := by
    intro a c
    rw [hrecords.mem_iff, List.mem_filter]
    exact and_iff_left rfl
  have hrecorded : IsRecorded records = IsRecorded ops := by
    funext a
    unfold IsRecorded
    simp only [hmem]
  have honly : ∀ op ∈ records, op.isRecord = true ∨ op = .linkConstructors :=
    fun op hop => .inl (List.mem_filter.mp (hrecords.mem_iff.mp hop)).2
  have hreplayed := holds_closed honly
  have hstored : ∀ a, (built (ops ++ [.linkConstructors])).IsStored a
      ↔ (built (records ++ [.linkConstructors])).IsStored a := by
    intro a
    rw [hclosed.stored, hreplayed.stored, hrecorded]
  have hconditions : ∀ a, (built (ops ++ [.linkConstructors])).conditionsAt a
      = (built (records ++ [.linkConstructors])).conditionsAt a := by
    intro a
    refine SortedSet.ext fun c => ?_
    rw [hclosed.conditions, hreplayed.conditions, hrecorded, hmem]
  refine ⟨⟨?_, hindexed.members_eq hindexed' hstored⟩,
    ⟨hclosed.stored, fun a => hclosed.isConstructorArc_iff, ?_⟩, ?_, ?_⟩
  · intro e
    rw [hindexed.mem_storedEdges_iff_isStored, hindexed'.mem_storedEdges_iff_isStored,
      hstored, hconditions]
  · intro e he c
    rw [← hindexed.conditionsAt_toArc he]
    exact hclosed.conditions e.toArc c
  · obtain ⟨_, hbefore⟩ := exists_holds hops
    obtain ⟨changed, hnodup, hchanged, hcount⟩ := (indexed_run ops).linkConstructors_snd
    refine ⟨changed, hnodup, fun a => ?_, hcount⟩
    rw [hchanged, hbefore.isConstructorArc_iff]
  · rw [built_concat]
    exact (indexed_run ops).linkConstructors_linkConstructors

/-- A listener is created and then called, under a condition, by its constructor. -/
def listenerCalls : List Operation :=
  [.record ⟨"<app.Main: void run()>", "<app.Listener: void <init>()>"⟩ ∅,
    .linkConstructors,
    .record ⟨"<app.Listener: void <init>()>", "<app.Listener: void on()>"⟩
      (.ofList [.holds "sdk >= 26"]),
    .record ⟨"<app.Listener: void on()>", "<app.Listener: int count(int)>"⟩ ∅]

/-- The constructor is linked to a method that was seen after a first linking, whatever
the order of the calls. -/
theorem linkConstructors_closure_listener :
    (∀ op ∈ listenerCalls, op.isRecord = true ∨ op = .linkConstructors)
    ∧ ((listenerCalls.filter Operation.isRecord).reverse).Perm
        (listenerCalls.filter Operation.isRecord)
    ∧ (built (listenerCalls ++ [.linkConstructors])).IsStored
        ⟨"<app.Listener: void <init>()>", "<app.Listener: int count(int)>"⟩
    ∧ (∀ e, e ∈ (built (listenerCalls ++ [.linkConstructors])).storedEdges
        ↔ e ∈ (built ((listenerCalls.filter Operation.isRecord).reverse
            ++ [.linkConstructors])).storedEdges)
    ∧ (built (listenerCalls ++ [.linkConstructors])).linkConstructors.2 = 0 := by
  have hops : ∀ op ∈ listenerCalls, op.isRecord = true ∨ op = .linkConstructors := by decide
  have hperm := List.reverse_perm (listenerCalls.filter Operation.isRecord)
  obtain ⟨⟨hedges, _⟩, ⟨hstored, _⟩, _, htwice⟩ := linkConstructors_closure hops hperm
  refine ⟨hops, hperm, (hstored _).mpr (.inr ?_), hedges, by rw [htwice]⟩
  have hcall : IsRecorded listenerCalls
      ⟨"<app.Main: void run()>", "<app.Listener: void <init>()>"⟩ :=
    ⟨by decide, ∅, by decide⟩
  have hcount : IsRecorded listenerCalls
      ⟨"<app.Listener: void on()>", "<app.Listener: int count(int)>"⟩ :=
    ⟨by decide, ∅, by decide⟩
  exact ⟨by decide +kernel, ⟨_, hcall, rfl⟩, by decide +kernel, ⟨_, hcount, .inr rfl⟩,
    by decide +kernel⟩

end ApiGuard.CallGraph
