/-
  ApiGuard.Proofs.CallGraph.Leading
  ─────────────────────────────────
  The guards on the ways to a method, found by going backward from it.

  A chain of stored edges leads from one method to another (`Leads`), and the
  distance of conditions is the least number of edges from an edge that carries them
  to the method.  Going backward over edges step by step is following such chains
  from their ends:

      reachedIn_iff_leads     an edge is reached in as many steps as lead on from it
      mem_guardsLeadingTo     found are the conditions of guarded edges with a chain
      guardsLeadingTo_exact   each once, and none before nearer ones
-/
import ApiGuard.Proofs.CallGraph.Indexes
import Mathlib.Data.List.Induction
import Mathlib.Order.Lattice.Nat

namespace ApiGuard.CallGraph

variable {g : CallGraph} {method : String}

/-! ## §1. Chains of stored edges. -/

/-- A chain of so many stored edges leads from one method to another. -/
def Leads (g : CallGraph) : Nat → String → String → Prop
  | 0, m, m' => m = m'
  | n + 1, m, m' => ∃ next, g.IsStored ⟨m, next⟩ ∧ g.Leads n next m'

/-- A guarded stored edge carries the conditions, from whose target a chain of `n`
edges leads to the method. -/
def CarriedAt (g : CallGraph) (method : String) (cs : Conditions) (n : Nat) : Prop :=
  ∃ e ∈ g.storedEdges, e.isGuarded = true ∧ e.conditions = cs ∧ g.Leads n e.target method

/-- The least number of stored edges from the target of an edge that carries the
conditions to the method. -/
noncomputable def distanceTo (g : CallGraph) (method : String) (cs : Conditions) : Nat :=
  sInf {n | g.CarriedAt method cs n}

/-! ## §2. Edges found. -/

theorem mem_idsInto_of_reachedIn {n id : Nat}
    (h : Search.ReachedIn g.preceding (g.idsInto method) n id) :
    ∃ target, id ∈ g.idsInto target := by
  cases n with
  | zero => exact ⟨method, h⟩
  | succ n =>
      obtain ⟨next, _, hid⟩ := h
      unfold preceding at hid
      split at hid
      next e _ => exact ⟨e.source, hid⟩
      next => cases hid

theorem preceding_eq {id : Nat} {e : Edge} (he : g.edges[id]? = some e) :
    g.preceding id = g.idsInto e.source := by
  unfold preceding
  rw [he]

/-- An edge is reached in as many steps as there are edges in a chain from its
target. -/
theorem WellFormed.reachedIn_iff_leads (h : g.WellFormed) (n : Nat) :
    ∀ {id : Nat} {e : Edge}, g.edges[id]? = some e → id ∈ g.idsInto e.target →
      (Search.ReachedIn g.preceding (g.idsInto method) n id ↔ g.Leads n e.target method) := by
  induction n with
  | zero =>
      intro id e he hid
      constructor
      · exact fun hreached => h.target_eq hreached he
      · intro htarget
        have htarget : e.target = method := htarget
        rw [← htarget]
        exact hid
  | succ n ih =>
      intro id e he hid
      constructor
      · -- the step came from an edge whose source is the target of this one
        intro hreached
        obtain ⟨next, hnext, hstep⟩ := hreached
        obtain ⟨target, htarget⟩ := mem_idsInto_of_reachedIn hnext
        obtain ⟨e', he', rfl, _⟩ := h.edge_of_stored htarget
        rw [preceding_eq he'] at hstep
        refine ⟨e'.target, ?_, (ih he' htarget).mp hnext⟩
        rw [h.target_eq hstep he]
        exact ⟨e', h.mem_storedEdges.mpr ⟨next, he', htarget⟩, rfl⟩
      · -- the first edge of the chain is reached, and this one precedes it
        intro hleads
        obtain ⟨m, ⟨e', he', harc⟩, hrest⟩ := hleads
        obtain ⟨next, he', htarget⟩ := h.mem_storedEdges.mp he'
        have hsource : e'.source = e.target := congrArg Arc.source harc
        have hnext : e'.target = m := congrArg Arc.target harc
        rw [← hnext] at hrest
        refine ⟨next, (ih he' htarget).mpr hrest, ?_⟩
        rw [preceding_eq he', hsource]
        exact hid

theorem WellFormed.idsInto_mem_range (h : g.WellFormed) (target : String) :
    ∀ id ∈ g.idsInto target, id ∈ List.range g.edges.size :=
  fun _ hid => List.mem_range.mpr (h.lt_size_of_mem_idsInto hid)

theorem WellFormed.preceding_mem_range (h : g.WellFormed) :
    ∀ id ∈ List.range g.edges.size, ∀ prior ∈ g.preceding id,
      prior ∈ List.range g.edges.size := by
  intro id hid prior hprior
  rw [preceding_eq (Array.getElem?_eq_getElem (List.mem_range.mp hid))] at hprior
  exact h.idsInto_mem_range _ prior hprior

theorem WellFormed.mem_leadingIds (h : g.WellFormed) {id : Nat} :
    id ∈ g.leadingIds method
      ↔ ∃ n, Search.ReachedIn g.preceding (g.idsInto method) n id :=
  Search.mem_search (h.idsInto_mem_range method) h.preceding_mem_range

/-! ## §3. Conditions found. -/

/-- What holds between a new element of a list and all those before holds between
the elements as they come up first. -/
theorem pairwise_eraseDups {α : Type} [DecidableEq α] {R : α → α → Prop} (l : List α)
    (h : ∀ before b after, l = before ++ b :: after → b ∉ before → ∀ a ∈ before, R a b) :
    l.eraseDups.Pairwise R := by
  induction l using List.reverseRecOn with
  | nil => simp
  | append_singleton l b ih =>
      have hinit := ih fun before c after heq =>
        h before c (after ++ [b]) (by rw [heq, List.append_assoc, List.cons_append])
      rw [List.eraseDups_append]
      by_cases hb : b ∈ l
      · simpa [List.removeAll, hb] using hinit
      · have hlast : ([b].removeAll l).eraseDups = [b] := by
          simp [List.removeAll, hb, List.eraseDups_cons]
        rw [hlast, List.pairwise_append]
        refine ⟨hinit, List.pairwise_singleton _ _, ?_⟩
        intro a ha c hc
        rw [List.mem_singleton.mp hc]
        exact h l b [] rfl hb a (List.mem_eraseDups.mp ha)

/-- The conditions of an edge if it is guarded. -/
def guardOf? (g : CallGraph) (id : Nat) : Option Conditions :=
  (g.edges[id]?.filter Edge.isGuarded).map (·.conditions)

theorem guardOf?_eq_some_iff {id : Nat} {cs : Conditions} :
    g.guardOf? id = some cs
      ↔ ∃ e, g.edges[id]? = some e ∧ e.isGuarded = true ∧ e.conditions = cs := by
  unfold guardOf?
  simp only [Option.map_eq_some_iff, Option.filter_eq_some_iff, and_assoc]

theorem guardsLeadingTo_eq (g : CallGraph) (method : String) :
    g.guardsLeadingTo method = ((g.leadingIds method).filterMap g.guardOf?).eraseDups := by
  unfold guardsLeadingTo edgesOf
  rw [List.filter_filterMap, List.map_filterMap]
  rfl

/-- Conditions are carried by a guarded edge that is reached. -/
theorem WellFormed.carriedAt_iff (h : g.WellFormed) {cs : Conditions} {n : Nat} :
    g.CarriedAt method cs n ↔ ∃ id, g.guardOf? id = some cs
      ∧ Search.ReachedIn g.preceding (g.idsInto method) n id := by
  constructor
  · intro hcarried
    obtain ⟨e, hstored, hguarded, hcs, hleads⟩ := hcarried
    obtain ⟨id, he, hid⟩ := h.mem_storedEdges.mp hstored
    exact ⟨id, guardOf?_eq_some_iff.mpr ⟨e, he, hguarded, hcs⟩,
      (h.reachedIn_iff_leads n he hid).mpr hleads⟩
  · intro hreached
    obtain ⟨id, hguard, hn⟩ := hreached
    obtain ⟨e, he, hguarded, hcs⟩ := guardOf?_eq_some_iff.mp hguard
    obtain ⟨target, hid⟩ := mem_idsInto_of_reachedIn hn
    obtain rfl := h.target_eq hid he
    exact ⟨e, h.mem_storedEdges.mpr ⟨id, he, hid⟩, hguarded, hcs,
      (h.reachedIn_iff_leads n he hid).mp hn⟩

theorem WellFormed.mem_guardsLeadingTo (h : g.WellFormed) {cs : Conditions} :
    cs ∈ g.guardsLeadingTo method ↔ ∃ n, g.CarriedAt method cs n := by
  rw [guardsLeadingTo_eq, List.mem_eraseDups, List.mem_filterMap]
  simp only [h.mem_leadingIds, h.carriedAt_iff]
  constructor
  · rintro ⟨id, ⟨n, hn⟩, hguard⟩
    exact ⟨n, id, hguard, hn⟩
  · rintro ⟨n, id, hguard, hn⟩
    exact ⟨id, ⟨n, hn⟩, hguard⟩

theorem nodup_guardsLeadingTo (g : CallGraph) (method : String) :
    (g.guardsLeadingTo method).Nodup := by
  rw [guardsLeadingTo_eq]
  refine pairwise_eraseDups _ fun before cs after _ hnew cs' hcs' heq => ?_
  exact hnew (heq ▸ hcs')

theorem WellFormed.isLeast_distanceTo (h : g.WellFormed) {cs : Conditions}
    (hcs : cs ∈ g.guardsLeadingTo method) :
    IsLeast {n | g.CarriedAt method cs n} (g.distanceTo method cs) :=
  ⟨Nat.sInf_mem (h.mem_guardsLeadingTo.mp hcs), fun _ hn => Nat.sInf_le hn⟩

/-- The guards come in the order of their distance, since the edges do. -/
theorem WellFormed.pairwise_guardsLeadingTo (h : g.WellFormed) (method : String) :
    (g.guardsLeadingTo method).Pairwise
      fun cs cs' => g.distanceTo method cs ≤ g.distanceTo method cs' := by
  have hnearer := Search.pairwise_search List.nodup_range (h.idsInto_mem_range method)
    h.preceding_mem_range
  rw [guardsLeadingTo_eq]
  refine pairwise_eraseDups _ fun before cs' after hsplit hnew cs hcs => ?_
  obtain ⟨ids, ids', hids, hbefore, _⟩ := List.filterMap_eq_append_iff.mp hsplit
  -- the nearest edge with the later conditions is not among those of the earlier ones
  have hlater : cs' ∈ g.guardsLeadingTo method := by
    rw [guardsLeadingTo_eq, hsplit, List.mem_eraseDups]
    exact List.mem_append_right _ List.mem_cons_self
  obtain ⟨id', hguard', hreached'⟩ := h.carriedAt_iff.mp (h.isLeast_distanceTo hlater).1
  have hid' : id' ∈ ids' := by
    have hfound := h.mem_leadingIds.mpr ⟨_, hreached'⟩
    rw [hids] at hfound
    refine (List.mem_append.mp hfound).resolve_left fun hfirst => hnew ?_
    rw [← hbefore]
    exact List.mem_filterMap.mpr ⟨id', hfirst, hguard'⟩
  -- so any edge with the earlier conditions is at most as far
  rw [← hbefore] at hcs
  obtain ⟨id, hid, hguard⟩ := List.mem_filterMap.mp hcs
  change (g.leadingIds method).Pairwise _ at hnearer
  rw [hids] at hnearer
  obtain ⟨m, hle, hm⟩ := (List.pairwise_append.mp hnearer).2.2 id hid id' hid' _ hreached'
  exact Nat.le_trans (Nat.sInf_le (h.carriedAt_iff.mpr ⟨id, hguard, hm⟩)) hle

/-! ## §4. The guards on the ways to a method. -/

/-- The guards found for a method are the conditions of the guarded stored edges
from whose targets a chain of stored edges, which may be empty, leads to the method.
Each is found once, and none after those that are farther: the distance of
conditions is the least length of such a chain.  None is found just if all stored
edges on the ways to the method are without guard. -/
theorem guardsLeadingTo_exact (hg : g.Reachable) (method : String) :
    (g.guardsLeadingTo method).Nodup
    ∧ (∀ cs, cs ∈ g.guardsLeadingTo method
        ↔ ∃ e ∈ g.storedEdges, e.isGuarded = true ∧ e.conditions = cs
          ∧ (e.target = method ∨ ∃ n, g.Leads (n + 1) e.target method))
    ∧ (∀ cs ∈ g.guardsLeadingTo method,
        IsLeast {n | ∃ e ∈ g.storedEdges, e.isGuarded = true ∧ e.conditions = cs
          ∧ g.Leads n e.target method} (g.distanceTo method cs))
    ∧ ((g.guardsLeadingTo method).Pairwise
        fun cs cs' => g.distanceTo method cs ≤ g.distanceTo method cs')
    ∧ (g.guardsLeadingTo method = []
        ↔ ∀ e ∈ g.storedEdges, (∃ n, g.Leads n e.target method) → e.isGuarded = false) := by
  have h := hg.wellFormed
  have hchain : ∀ m, (∃ n, g.Leads n m method)
      ↔ m = method ∨ ∃ n, g.Leads (n + 1) m method := by
    intro m
    constructor
    · rintro ⟨n, hn⟩
      cases n with
      | zero => exact .inl hn
      | succ n => exact .inr ⟨n, hn⟩
    · rintro (heq | ⟨n, hn⟩)
      · exact ⟨0, heq⟩
      · exact ⟨n + 1, hn⟩
  refine ⟨nodup_guardsLeadingTo g method, ?_, fun cs hcs => h.isLeast_distanceTo hcs,
    h.pairwise_guardsLeadingTo method, ?_⟩
  · intro cs
    rw [h.mem_guardsLeadingTo]
    simp only [← hchain]
    constructor
    · rintro ⟨n, e, hstored, hguarded, hcs, hn⟩
      exact ⟨e, hstored, hguarded, hcs, n, hn⟩
    · rintro ⟨e, hstored, hguarded, hcs, n, hn⟩
      exact ⟨n, e, hstored, hguarded, hcs, hn⟩
  · constructor
    · intro hnil e hstored hleads
      obtain ⟨n, hn⟩ := hleads
      cases hguarded : e.isGuarded with
      | false => rfl
      | true =>
          have hfound := h.mem_guardsLeadingTo.mpr ⟨n, e, hstored, hguarded, rfl, hn⟩
          rw [hnil] at hfound
          cases hfound
    · intro hnone
      refine List.eq_nil_iff_forall_not_mem.mpr fun cs hcs => ?_
      obtain ⟨n, e, hstored, hguarded, _, hn⟩ := h.mem_guardsLeadingTo.mp hcs
      rw [hnone e hstored ⟨n, hn⟩] at hguarded
      cases hguarded

/-- Three methods that call each other in a circle, twice under a condition. -/
def circleCalls : List Operation :=
  [.record ⟨"<app.A: void a()>", "<app.B: void b()>"⟩ (.ofList [.holds "x"]),
    .record ⟨"<app.B: void b()>", "<app.C: void c()>"⟩ ∅,
    .record ⟨"<app.C: void c()>", "<app.A: void a()>"⟩ (.ofList [.negated "y"])]

/-- Also the guard on the call from the method itself is found, and after the nearer
one. -/
theorem guardsLeadingTo_circle :
    (built circleCalls).Reachable
    ∧ (built circleCalls).guardsLeadingTo "<app.C: void c()>"
        = [.ofList [.ofList [.holds "x"]], .ofList [.ofList [.negated "y"]]]
    ∧ (∃ e ∈ (built circleCalls).storedEdges, e.conditions = .ofList [.ofList [.negated "y"]]
        ∧ ∃ n, (built circleCalls).Leads (n + 1) e.target "<app.C: void c()>")
    ∧ (built circleCalls).distanceTo "<app.C: void c()>" (.ofList [.ofList [.holds "x"]])
        ≤ (built circleCalls).distanceTo "<app.C: void c()>"
          (.ofList [.ofList [.negated "y"]]) := by
  have hreachable : (built circleCalls).Reachable := ⟨circleCalls, rfl⟩
  have hfound : (built circleCalls).guardsLeadingTo "<app.C: void c()>"
      = [.ofList [.ofList [.holds "x"]], .ofList [.ofList [.negated "y"]]] := by
    decide +kernel
  obtain ⟨_, hmem, _, hsorted, _⟩ := guardsLeadingTo_exact hreachable "<app.C: void c()>"
  rw [hfound] at hmem hsorted
  refine ⟨hreachable, hfound, ?_, List.rel_of_pairwise_cons hsorted List.mem_cons_self⟩
  obtain ⟨e, hstored, _, hconditions, hleads⟩ :=
    (hmem _).mp (List.mem_cons_of_mem _ List.mem_cons_self)
  -- the edge with this guard is not into the method, so a chain leads on from it
  have hother : ∀ e ∈ (built circleCalls).storedEdges,
      e.conditions = .ofList [.ofList [.negated "y"]] → e.target ≠ "<app.C: void c()>" := by
    decide +kernel
  exact ⟨e, hstored, hconditions, hleads.resolve_left (hother e hstored hconditions)⟩

end ApiGuard.CallGraph
