/-
  ApiGuard.Proofs.CallGraph.Unrolling
  ───────────────────────────────────
  The trace of the callers of a method, by plain recursion.

  `Unrolling.unroll` is the trace as one would first write it down: it goes through the
  stored edges to a method, and for each whose source was not visited it writes a line and
  calls itself for the source, with one set of visited methods for the whole trace.
  `callerTrace` keeps a stack of edges, among them such whose source was visited since they
  were put there, and writes the very same lines:

      linesWith_unrollEach   the stack does for its first edges what the recursion does
      lines_callerTrace      so the trace is what the recursion writes
      callerTrace_eq_unroll  by way of all stored edges to a method, in the order of numbers
-/
import ApiGuard.Proofs.CallGraph.Callers
import ApiGuard.Proofs.CallGraph.Indexes

namespace ApiGuard

/-! ## §1. The recursion. -/

/-- How far a trace has come. -/
structure Unrolling where
  /-- The lines written. -/
  lines : List TraceLine
  /-- The methods visited. -/
  visited : SortedSet String

namespace Unrolling

/-- Before the first line just the method of the trace is visited. -/
def start (method : String) : Unrolling := ⟨[], SortedSet.insert ∅ method⟩

/-- Visit the source of an edge, with a line for it. -/
def mark (u : Unrolling) (depth : Nat) (e : Edge) : Unrolling where
  lines := u.lines ++ [⟨depth, e.source, e.conditions⟩]
  visited := u.visited.insert e.source

/-- The sources of edges that are not visited. -/
def unvisited (u : Unrolling) (g : CallGraph) : SortedSet String where
  toList := g.sources.toList.filter fun m => m ∉ u.visited
  increasing := g.sources.increasing.filter _

variable {g : CallGraph} {u : Unrolling} {method : String} {id depth : Nat} {e : Edge}

theorem mem_unvisited {m : String} : m ∈ u.unvisited g ↔ m ∈ g.sources ∧ m ∉ u.visited := by
  show m ∈ g.sources.toList.filter _ ↔ _
  rw [List.mem_filter, decide_eq_true_eq]
  rfl

theorem mem_unvisited_of_getElem? (he : g.edges[id]? = some e) (hnew : e.source ∉ u.visited) :
    e.source ∈ u.unvisited g := by
  have hedge : e ∈ g.edges.toList := List.mem_of_getElem? (by rwa [Array.getElem?_toList])
  refine mem_unvisited.mpr ⟨?_, hnew⟩
  unfold CallGraph.sources
  rw [SortedSet.mem_ofList]
  exact List.mem_map.mpr ⟨e, hedge, rfl⟩

theorem unvisited_mark (u : Unrolling) (g : CallGraph) (depth : Nat) (e : Edge) :
    (u.mark depth e).unvisited g = (u.unvisited g).erase e.source := by
  refine SortedSet.ext fun m => ?_
  rw [SortedSet.mem_erase, mem_unvisited, mem_unvisited]
  show m ∈ g.sources ∧ m ∉ u.visited.insert e.source ↔ _
  rw [SortedSet.mem_insert, not_or]
  exact and_left_comm

theorem unvisited_start (g : CallGraph) (method : String) :
    (start method).unvisited g = g.sources.erase method := by
  refine SortedSet.ext fun m => ?_
  rw [SortedSet.mem_erase, mem_unvisited]
  show m ∈ g.sources ∧ m ∉ SortedSet.insert ∅ method ↔ _
  rw [SortedSet.mem_insert, or_iff_left (SortedSet.not_mem_empty m)]
  exact and_comm

theorem size_unvisited_mark (he : g.edges[id]? = some e) (hnew : e.source ∉ u.visited) :
    ((u.mark depth e).unvisited g).size < (u.unvisited g).size := by
  rw [unvisited_mark]
  exact SortedSet.size_erase_lt (mem_unvisited_of_getElem? he hnew)

mutual

/-- Unroll the callers of a method: go through the stored edges to it, by number. -/
def unroll (g : CallGraph) (u : Unrolling) (method : String) (depth : Nat) :
    { u' : Unrolling // (u'.unvisited g).size ≤ (u.unvisited g).size } :=
  unrollEach g u (g.idsInto method) depth
termination_by ((u.unvisited g).size, (g.idsInto method).length + 1)
decreasing_by exact .right _ (Nat.lt_succ_self _)

/-- Go through edges: visit the source of each, unless it is visited, and unroll its callers
one level deeper. -/
def unrollEach (g : CallGraph) (u : Unrolling) (ids : List Nat) (depth : Nat) :
    { u' : Unrolling // (u'.unvisited g).size ≤ (u.unvisited g).size } :=
  match ids with
  | [] => ⟨u, Nat.le_refl _⟩
  | id :: rest =>
    match he : g.edges[id]? with
    | none =>
      -- no stored edge has this number
      unrollEach g u rest depth
    | some e =>
      if hseen : e.source ∈ u.visited then unrollEach g u rest depth
      else
        have hmark : ((u.mark depth e).unvisited g).size < (u.unvisited g).size :=
          size_unvisited_mark he hseen
        let callers := unroll g (u.mark depth e) e.source (depth + 1)
        let others := unrollEach g callers.1 rest depth
        ⟨others.1, Nat.le_trans others.2 (Nat.le_trans callers.2 (Nat.le_of_lt hmark))⟩
termination_by ((u.unvisited g).size, ids.length)
decreasing_by
  · exact .right _ (Nat.lt_succ_self _)
  · exact .right _ (Nat.lt_succ_self _)
  · exact .left _ _ hmark
  · exact .left _ _ (Nat.lt_of_le_of_lt callers.2 hmark)

end

variable {ids rest : List Nat}

theorem unroll_eq (g : CallGraph) (u : Unrolling) (method : String) (depth : Nat) :
    unroll g u method depth = unrollEach g u (g.idsInto method) depth := by
  rw [unroll]

theorem unrollEach_none (he : g.edges[id]? = none) :
    (unrollEach g u (id :: rest) depth).1 = (unrollEach g u rest depth).1 := by
  rw [unrollEach]
  split
  next => rfl
  next e hsome => simp [he] at hsome

theorem unrollEach_of_mem (he : g.edges[id]? = some e) (hseen : e.source ∈ u.visited) :
    (unrollEach g u (id :: rest) depth).1 = (unrollEach g u rest depth).1 := by
  rw [unrollEach]
  split
  next => rfl
  next e' hsome =>
      obtain rfl : e = e' := Option.some.inj (he.symm.trans hsome)
      rw [dif_pos hseen]

theorem unrollEach_of_not_mem (he : g.edges[id]? = some e) (hnew : e.source ∉ u.visited) :
    (unrollEach g u (id :: rest) depth).1
      = (unrollEach g (unroll g (u.mark depth e) e.source (depth + 1)).1 rest depth).1 := by
  rw [unrollEach]
  split
  next hnone => simp [he] at hnone
  next e' hsome =>
      obtain rfl : e = e' := Option.some.inj (he.symm.trans hsome)
      rw [dif_neg hnew]

/-! ## §2. The stack and the recursion. -/

/-- All lines of a trace that has come so far, if these edges are left on the stack. -/
def linesWith (g : CallGraph) (u : Unrolling) (stack : List (Nat × Nat)) : List TraceLine :=
  u.lines ++ g.unwind (u.unvisited g) stack

theorem linesWith_nil : linesWith g u [] = u.lines := by
  unfold linesWith
  rw [CallGraph.unwind, List.append_nil]

theorem linesWith_none {stack : List (Nat × Nat)} (he : g.edges[id]? = none) :
    linesWith g u ((id, depth) :: stack) = linesWith g u stack := by
  unfold linesWith
  rw [CallGraph.unwind_none he]

theorem linesWith_of_mem {stack : List (Nat × Nat)} (he : g.edges[id]? = some e)
    (hseen : e.source ∈ u.visited) :
    linesWith g u ((id, depth) :: stack) = linesWith g u stack := by
  unfold linesWith
  rw [CallGraph.unwind_of_not_mem he fun hunvisited => (mem_unvisited.mp hunvisited).2 hseen]

/-- A source that was not visited gets its line, and the edges to it come on the stack. -/
theorem linesWith_of_not_mem {stack : List (Nat × Nat)} (he : g.edges[id]? = some e)
    (hnew : e.source ∉ u.visited) :
    linesWith g u ((id, depth) :: stack)
      = linesWith g (u.mark depth e) ((g.idsInto e.source).map (·, depth + 1) ++ stack) := by
  unfold linesWith
  rw [CallGraph.unwind_of_mem he (mem_unvisited_of_getElem? he hnew), unvisited_mark,
    List.append_cons]
  rfl

/-- The lines are the same when the recursion has gone through the first edges of the stack,
whatever stands below them and whichever of their sources are visited on the way. -/
theorem linesWith_unrollEach (g : CallGraph) (u : Unrolling) (ids : List Nat) (depth : Nat) :
    ∀ stack : List (Nat × Nat),
      linesWith g u (ids.map (·, depth) ++ stack)
        = linesWith g (unrollEach g u ids depth).1 stack := by
  induction u, ids, depth using unrollEach.induct g
    (fun u method depth => ∀ stack : List (Nat × Nat),
      linesWith g u ((g.idsInto method).map (·, depth) ++ stack)
        = linesWith g (unroll g u method depth).1 stack) with
  | case1 u method depth ih stack => rw [unroll_eq, ih]
  | case2 u depth =>
      intro stack
      rw [unrollEach]
      rfl
  | case3 u depth id rest he ih =>
      intro stack
      rw [List.map_cons, List.cons_append, linesWith_none he, ih, unrollEach_none he]
  | case4 u depth id rest e he hseen ih =>
      intro stack
      rw [List.map_cons, List.cons_append, linesWith_of_mem he hseen, ih,
        unrollEach_of_mem he hseen]
  | case5 u depth id rest e he hnew hmark callers ihcallers ihrest =>
      intro stack
      -- the edges to the source are done before the rest, which waits below them
      rw [List.map_cons, List.cons_append, linesWith_of_not_mem he hnew, ihcallers, ihrest,
        unrollEach_of_not_mem he hnew]

end Unrolling

namespace CallGraph

variable {g : CallGraph} {method : String}

/-- The lines that the recursion writes for the callers of a method. -/
def unrolledCallers (g : CallGraph) (method : String) : List TraceLine :=
  (Unrolling.unroll g (.start method) method 0).1.lines

/-- The stack of edges writes just the lines that the recursion writes, in this order. -/
theorem lines_callerTrace (g : CallGraph) (method : String) :
    (g.callerTrace method).lines = g.unrolledCallers method := by
  have hlines := Unrolling.linesWith_unrollEach g (.start method) (g.idsInto method) 0 []
  rw [List.append_nil, Unrolling.linesWith_nil, ← Unrolling.unroll_eq] at hlines
  -- at first the sources of all edges are unvisited, but for the method of the trace
  have hstart : (g.callerTrace method).lines
      = Unrolling.linesWith g (.start method) ((g.idsInto method).map (·, 0)) := by
    unfold Unrolling.linesWith
    rw [Unrolling.unvisited_start]
    rfl
  rw [hstart, hlines]
  rfl

/-! ## §3. The edges that the recursion goes through. -/

theorem pairwise_idsInto (g : CallGraph) (method : String) :
    (g.idsInto method).Pairwise (· < ·) :=
  (g.stored.image method).increasing.imp Nat.compare_eq_lt.mp

theorem WellFormed.mem_idsInto (h : g.WellFormed) {id : Nat} :
    id ∈ g.idsInto method
      ↔ ∃ e ∈ g.storedEdges, g.edges[id]? = some e ∧ e.target = method := by
  constructor
  · intro hid
    obtain ⟨e, he, rfl, _⟩ := h.edge_of_stored hid
    exact ⟨e, h.mem_storedEdges.mpr ⟨id, he, hid⟩, he, rfl⟩
  · intro hedge
    obtain ⟨e, hstored, he, rfl⟩ := hedge
    obtain ⟨id', he', hid'⟩ := h.mem_storedEdges.mp hstored
    -- an edge has only one number
    have hnumber := h.number_of_edge he
    rw [h.number_of_edge he'] at hnumber
    exact Option.some.inj hnumber ▸ hid'

/-- After any operations the stack of edges writes just the lines that the recursion writes,
in this order.  The numbers that the recursion goes through for a method are those of the
stored edges to it, in increasing order. -/
theorem callerTrace_eq_unroll (ops : List Operation) (method : String) :
    ((built ops).callerTrace method).lines = (built ops).unrolledCallers method
    ∧ ∀ m, ((built ops).idsInto m).Pairwise (· < ·)
        ∧ ∀ id, id ∈ (built ops).idsInto m
          ↔ ∃ e ∈ (built ops).storedEdges, (built ops).edges[id]? = some e ∧ e.target = m := by
  refine ⟨lines_callerTrace _ method, fun m => ⟨pairwise_idsInto _ m, fun id => ?_⟩⟩
  exact (indexed_run ops).toWellFormed.mem_idsInto

end CallGraph

end ApiGuard
