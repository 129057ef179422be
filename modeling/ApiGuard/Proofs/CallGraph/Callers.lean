/-
  ApiGuard.Proofs.CallGraph.Callers
  ─────────────────────────────────
  The trace of the callers of a method is a tree of all of them.

  A line is read as a node of a tree: its parent is the method itself, or the
  nearest line before it that is one level less deep (`parent?`).  While the trace
  is written, the target of each edge on the stack is the parent at its depth, and no
  edge is deeper than those above it (`Pending`):

      Pending.visit         writing a line keeps this
      Pending.exists_edge   so each line has a stored edge to its parent
      mem_callers_iff       and all methods that lead to the method have a line
      callerTrace_tree      each one
-/
import ApiGuard.CallGraph.Trace
import ApiGuard.Proofs.CallGraph.Leading

namespace ApiGuard.CallGraph

variable {g : CallGraph} {method : String}

/-! ## §1. One edge of the stack. -/

/-- The callers that lines are about. -/
def callers (lines : List TraceLine) : List String := lines.map (·.caller)

theorem unwind_none {unseen : SortedSet String} {id depth : Nat} {stack : List (Nat × Nat)}
    (he : g.edges[id]? = none) :
    g.unwind unseen ((id, depth) :: stack) = g.unwind unseen stack := by
  rw [unwind, he]

theorem unwind_of_mem {unseen : SortedSet String} {id depth : Nat} {stack : List (Nat × Nat)}
    {e : Edge} (he : g.edges[id]? = some e) (hnew : e.source ∈ unseen) :
    g.unwind unseen ((id, depth) :: stack)
      = ⟨depth, e.source, e.conditions⟩ :: g.unwind (unseen.erase e.source)
          ((g.idsInto e.source).map (·, depth + 1) ++ stack) := by
  rw [unwind, he]
  exact if_pos hnew

theorem unwind_of_not_mem {unseen : SortedSet String} {id depth : Nat}
    {stack : List (Nat × Nat)} {e : Edge} (he : g.edges[id]? = some e)
    (hseen : e.source ∉ unseen) :
    g.unwind unseen ((id, depth) :: stack) = g.unwind unseen stack := by
  rw [unwind, he]
  exact if_neg hseen

/-! ## §2. Each caller once. -/

/-- Every caller that is found was unseen before. -/
theorem mem_unseen_of_mem_callers (unseen : SortedSet String) (stack : List (Nat × Nat)) :
    ∀ m ∈ callers (g.unwind unseen stack), m ∈ unseen := by
  induction unseen, stack using unwind.induct g with
  | case1 unseen =>
      intro m hm
      rw [unwind] at hm
      cases hm
  | case2 unseen id depth stack he ih =>
      rw [unwind_none he]
      exact ih
  | case3 unseen id depth stack e he hnew ih =>
      intro m hm
      rw [unwind_of_mem he hnew] at hm
      rcases List.mem_cons.mp hm with rfl | hm
      · exact hnew
      · exact (SortedSet.mem_erase.mp (ih m hm)).2
  | case4 unseen id depth stack e he hseen ih =>
      rw [unwind_of_not_mem he hseen]
      exact ih

/-- No caller is found twice, since each is seen from then on. -/
theorem nodup_callers (unseen : SortedSet String) (stack : List (Nat × Nat)) :
    (callers (g.unwind unseen stack)).Nodup := by
  induction unseen, stack using unwind.induct g with
  | case1 unseen =>
      rw [unwind]
      exact List.nodup_nil
  | case2 unseen id depth stack he ih =>
      rw [unwind_none he]
      exact ih
  | case3 unseen id depth stack e he hnew ih =>
      rw [unwind_of_mem he hnew]
      refine List.nodup_cons.mpr ⟨?_, ih⟩
      -- what follows is about methods that were still unseen
      intro hagain
      exact (SortedSet.mem_erase.mp (mem_unseen_of_mem_callers _ _ _ hagain)).1 rfl
  | case4 unseen id depth stack e he hseen ih =>
      rw [unwind_of_not_mem he hseen]
      exact ih

theorem mem_stack_of_ne {p top : Nat × Nat} {stack : List (Nat × Nat)}
    (hp : p ∈ top :: stack) (hne : g.edges[p.1]? ≠ g.edges[top.1]?) : p ∈ stack := by
  rcases List.mem_cons.mp hp with rfl | hp
  · exact absurd rfl hne
  · exact hp

/-- The unseen source of an edge on the stack, or of one that leads to a caller, is a
caller. -/
theorem mem_callers_of_pending (unseen : SortedSet String) (stack : List (Nat × Nat)) :
    ∀ {id : Nat} {e : Edge}, g.edges[id]? = some e → e.source ∈ unseen →
      (∃ depth, (id, depth) ∈ stack)
        ∨ (∃ m ∈ callers (g.unwind unseen stack), id ∈ g.idsInto m) →
      e.source ∈ callers (g.unwind unseen stack) := by
  induction unseen, stack using unwind.induct g with
  | case1 unseen =>
      intro id e _ _ hpending
      rw [unwind] at hpending
      rcases hpending with ⟨_, hmem⟩ | ⟨_, hmem, _⟩
      · cases hmem
      · cases hmem
  | case2 unseen top depth stack htop ih =>
      intro id e he hunseen hpending
      rw [unwind_none htop] at hpending ⊢
      refine ih he hunseen (hpending.imp_left fun hstack => ?_)
      obtain ⟨d, hmem⟩ := hstack
      have hne : g.edges[id]? ≠ g.edges[top]? := by simp [he, htop]
      exact ⟨d, mem_stack_of_ne hmem hne⟩
  | case3 unseen top depth stack etop htop hnew ih =>
      intro id e he hunseen hpending
      rw [unwind_of_mem htop hnew] at hpending ⊢
      by_cases hsource : e.source = etop.source
      · rw [hsource]
        exact List.mem_cons_self
      · refine List.mem_cons_of_mem _ (ih he (SortedSet.mem_erase.mpr ⟨hsource, hunseen⟩) ?_)
        rcases hpending with ⟨d, hmem⟩ | ⟨m, hm, hid⟩
        · -- on the stack it stays, as its source is not that of the top
          have hne : g.edges[id]? ≠ g.edges[top]? := by
            rw [he, htop]
            exact fun heq => hsource (congrArg (·.source) (Option.some.inj heq))
          exact .inl ⟨d, List.mem_append_right _ (mem_stack_of_ne hmem hne)⟩
        · rcases List.mem_cons.mp hm with rfl | hm
          · exact .inl ⟨depth + 1, List.mem_append_left _ (List.mem_map.mpr ⟨id, hid, rfl⟩)⟩
          · exact .inr ⟨m, hm, hid⟩
  | case4 unseen top depth stack etop htop hseen ih =>
      intro id e he hunseen hpending
      rw [unwind_of_not_mem htop hseen] at hpending ⊢
      refine ih he hunseen (hpending.imp_left fun hstack => ?_)
      obtain ⟨d, hmem⟩ := hstack
      have hne : g.edges[id]? ≠ g.edges[top]? := by
        rw [he, htop]
        exact fun heq => hseen (Option.some.inj heq ▸ hunseen)
      exact ⟨d, mem_stack_of_ne hmem hne⟩

/-! ## §3. Parents. -/

/-- The parent at a depth below the lines: the method itself at depth zero, else the
caller of the last line that is one level less deep. -/
def parent? (method : String) (lines : List TraceLine) : Nat → Option String
  | 0 => some method
  | depth + 1 => (lines.reverse.find? (·.depth == depth)).map (·.caller)

theorem parent?_concat_self (lines : List TraceLine) (line : TraceLine) :
    parent? method (lines ++ [line]) (line.depth + 1) = some line.caller := by
  have hfound : (line :: lines.reverse).find? (·.depth == line.depth) = some line :=
    List.find?_cons_of_pos (beq_self_eq_true line.depth)
  show ((lines ++ [line]).reverse.find? (·.depth == line.depth)).map (·.caller) = _
  rw [List.reverse_concat, hfound]
  rfl

theorem parent?_concat_of_le (lines : List TraceLine) {line : TraceLine} {depth : Nat}
    (hle : depth ≤ line.depth) :
    parent? method (lines ++ [line]) depth = parent? method lines depth := by
  cases depth with
  | zero => rfl
  | succ depth =>
      have hne : ¬ (line.depth == depth) = true := by
        rw [beq_iff_eq]
        omega
      have hskipped : (line :: lines.reverse).find? (·.depth == depth)
          = lines.reverse.find? (·.depth == depth) := List.find?_cons_of_neg hne
      show ((lines ++ [line]).reverse.find? (·.depth == depth)).map (·.caller) = _
      rw [List.reverse_concat, hskipped]
      rfl

/-- The edge is stored, its target is the parent at the depth, and a chain leads on
from there. -/
structure IsPendingAt (g : CallGraph) (method : String) (before : List TraceLine)
    (depth : Nat) (e : Edge) : Prop where
  stored : e ∈ g.storedEdges
  parent : parent? method before depth = some e.target
  leads : ∃ n, g.Leads n e.target method

/-- What is on the stack after the lines. -/
structure Pending (g : CallGraph) (method : String) (before : List TraceLine)
    (stack : List (Nat × Nat)) : Prop where
  /-- All edges on it are pending at their depths. -/
  isPendingAt : ∀ p ∈ stack, ∀ e, g.edges[p.1]? = some e → g.IsPendingAt method before p.2 e
  /-- None is deeper than those above it. -/
  sorted : stack.Pairwise fun p q => q.2 ≤ p.2

theorem Pending.pop {before : List TraceLine} {p : Nat × Nat} {stack : List (Nat × Nat)}
    (h : g.Pending method before (p :: stack)) : g.Pending method before stack where
  isPendingAt := fun q hq => h.isPendingAt q (List.mem_cons_of_mem _ hq)
  sorted := (List.pairwise_cons.mp h.sorted).2

theorem WellFormed.isPendingAt (h : g.WellFormed) {before : List TraceLine} {target : String}
    {id depth : Nat} (hid : id ∈ g.idsInto target)
    (hparent : parent? method before depth = some target)
    (hleads : ∃ n, g.Leads n target method) {e : Edge} (he : g.edges[id]? = some e) :
    g.IsPendingAt method before depth e := by
  obtain rfl := h.target_eq hid he
  exact ⟨h.mem_storedEdges.mpr ⟨id, he, hid⟩, hparent, hleads⟩

theorem WellFormed.pending_start (h : g.WellFormed) (method : String) :
    g.Pending method [] ((g.idsInto method).map (·, 0)) where
  isPendingAt := by
    intro p hp e he
    obtain ⟨id, hid, rfl⟩ := List.mem_map.mp hp
    exact h.isPendingAt hid rfl ⟨0, rfl⟩ he
  sorted := by
    rw [List.pairwise_map]
    exact List.pairwise_of_forall fun _ _ => Nat.le_refl 0

/-- To write the line of the top edge and put the edges to its source in its place
keeps what is pending. -/
theorem Pending.visit {before : List TraceLine} {id depth : Nat} {stack : List (Nat × Nat)}
    {e : Edge} (h : g.Pending method before ((id, depth) :: stack)) (hg : g.WellFormed)
    (he : g.edges[id]? = some e) :
    g.Pending method (before ++ [⟨depth, e.source, e.conditions⟩])
      ((g.idsInto e.source).map (·, depth + 1) ++ stack) := by
  have hbelow := (List.pairwise_cons.mp h.sorted).1
  refine ⟨?_, ?_⟩
  · intro p hp e' he'
    rcases List.mem_append.mp hp with hp | hp
    · -- the line that was written is the parent, and its edge prolongs the chain
      obtain ⟨prior, hprior, rfl⟩ := List.mem_map.mp hp
      obtain ⟨hstored, _, n, hleads⟩ := h.isPendingAt _ List.mem_cons_self e he
      exact hg.isPendingAt hprior (parent?_concat_self before _)
        ⟨n + 1, e.target, ⟨e, hstored, rfl⟩, hleads⟩ he'
    · -- an edge further down is not deeper, so the line is no parent for it
      have hpending := h.isPendingAt p (List.mem_cons_of_mem _ hp) e' he'
      refine ⟨hpending.stored, ?_, hpending.leads⟩
      rw [parent?_concat_of_le before (hbelow p hp)]
      exact hpending.parent
  · refine List.pairwise_append.mpr ⟨?_, h.pop.sorted, ?_⟩
    · rw [List.pairwise_map]
      exact List.pairwise_of_forall fun _ _ => Nat.le_refl _
    · intro p hp q hq
      obtain ⟨_, _, rfl⟩ := List.mem_map.mp hp
      exact Nat.le_succ_of_le (hbelow q hq)

/-- Each line has a stored edge from its caller to its parent, with its conditions. -/
theorem Pending.exists_edge (hg : g.WellFormed) (unseen : SortedSet String)
    (stack : List (Nat × Nat)) :
    ∀ {before : List TraceLine}, g.Pending method before stack →
      ∀ {first : List TraceLine} {line : TraceLine} {rest : List TraceLine},
        g.unwind unseen stack = first ++ line :: rest →
          ∃ e, g.IsPendingAt method (before ++ first) line.depth e
            ∧ e.source = line.caller ∧ e.conditions = line.conditions := by
  induction unseen, stack using unwind.induct g with
  | case1 unseen =>
      intro before _ first line rest hsplit
      rw [unwind] at hsplit
      exact absurd hsplit (by simp)
  | case2 unseen id depth stack he ih =>
      intro before h first line rest hsplit
      rw [unwind_none he] at hsplit
      exact ih h.pop hsplit
  | case3 unseen id depth stack e he hnew ih =>
      intro before h first line rest hsplit
      rw [unwind_of_mem he hnew] at hsplit
      cases first with
      | nil =>
          obtain ⟨rfl, _⟩ := List.cons.inj hsplit
          rw [List.append_nil]
          exact ⟨e, h.isPendingAt _ List.mem_cons_self e he, rfl, rfl⟩
      | cons top first =>
          obtain ⟨rfl, hrest⟩ := List.cons.inj hsplit
          rw [List.append_cons]
          exact ih (h.visit hg he) hrest
  | case4 unseen id depth stack e he hseen ih =>
      intro before h first line rest hsplit
      rw [unwind_of_not_mem he hseen] at hsplit
      exact ih h.pop hsplit

/-! ## §4. The trace. -/

theorem WellFormed.mem_sources (h : g.WellFormed) {m next : String}
    (hstored : g.IsStored ⟨m, next⟩) :
    ∃ id e, g.edges[id]? = some e ∧ e.source = m ∧ id ∈ g.idsInto next ∧ m ∈ g.sources := by
  obtain ⟨e, he, harc⟩ := hstored
  obtain ⟨id, he, hid⟩ := h.mem_storedEdges.mp he
  have hsource : e.source = m := congrArg Arc.source harc
  have htarget : e.target = next := congrArg Arc.target harc
  rw [htarget] at hid
  refine ⟨id, e, he, hsource, hid, ?_⟩
  unfold sources
  rw [SortedSet.mem_ofList, List.mem_map]
  exact ⟨e, List.mem_of_getElem? (by rwa [Array.getElem?_toList]), hsource⟩

/-- A method has a line just if a chain of stored edges leads from it to the method of
the trace. -/
theorem WellFormed.mem_callers_iff (h : g.WellFormed) (method m : String) :
    m ∈ callers (g.callerTrace method).lines ↔ m ≠ method ∧ ∃ n, g.Leads n m method := by
  constructor
  · intro hm
    refine ⟨(SortedSet.mem_erase.mp (mem_unseen_of_mem_callers _ _ m hm)).1, ?_⟩
    obtain ⟨line, hline, rfl⟩ := List.mem_map.mp hm
    obtain ⟨first, rest, hsplit⟩ := List.append_of_mem hline
    obtain ⟨e, hpending, hsource, _⟩ :=
      Pending.exists_edge h _ _ (h.pending_start method) hsplit
    obtain ⟨n, hleads⟩ := hpending.leads
    rw [← hsource]
    exact ⟨n + 1, e.target, ⟨e, hpending.stored, rfl⟩, hleads⟩
  · -- along the chain, from its end: what leads to a caller is a caller
    rintro ⟨hne, n, hleads⟩
    induction n generalizing m with
    | zero => exact absurd hleads hne
    | succ n ih =>
        obtain ⟨next, hstored, hleads⟩ := hleads
        obtain ⟨id, e, he, rfl, hid, hsource⟩ := h.mem_sources hstored
        refine mem_callers_of_pending _ _ he (SortedSet.mem_erase.mpr ⟨hne, hsource⟩) ?_
        by_cases hend : next = method
        · rw [hend] at hid
          exact .inl ⟨0, List.mem_map.mpr ⟨id, hid, rfl⟩⟩
        · exact .inr ⟨next, ih next hend hleads, hid⟩

/-- The trace of a method has one line for each other method from which a chain of
stored edges leads to it, and no other lines.  The parent of a line, which is the
method itself at depth zero and else the caller of the nearest line before it that is
one level less deep, is always there; the conditions of the line are those of the
stored edge from its caller to its parent. -/
theorem callerTrace_tree (hg : g.Reachable) (method : String) :
    (callers (g.callerTrace method).lines).Nodup
    ∧ (∀ m, m ∈ callers (g.callerTrace method).lines
        ↔ m ≠ method ∧ ∃ n, g.Leads n m method)
    ∧ ∀ before line after, (g.callerTrace method).lines = before ++ line :: after →
        ∃ e ∈ g.storedEdges, e.source = line.caller ∧ e.conditions = line.conditions
          ∧ parent? method before line.depth = some e.target := by
  have h := hg.wellFormed
  refine ⟨nodup_callers _ _, h.mem_callers_iff method, ?_⟩
  intro before line after hsplit
  obtain ⟨e, hpending, hsource, hconditions⟩ :=
    Pending.exists_edge h _ _ (h.pending_start method) hsplit
  exact ⟨e, hpending.stored, hsource, hconditions, hpending.parent⟩

/-- A method that calls another on two ways, one of them under a condition, and is
called by it. -/
def diamondCalls : List Operation :=
  [.record ⟨"<app.Main: void run()>", "<app.A: void a()>"⟩ (.ofList [.holds "x"]),
    .record ⟨"<app.Main: void run()>", "<app.B: void b()>"⟩ ∅,
    .record ⟨"<app.A: void a()>", "<app.C: void c()>"⟩ ∅,
    .record ⟨"<app.B: void b()>", "<app.C: void c()>"⟩ ∅,
    .record ⟨"<app.C: void c()>", "<app.Main: void run()>"⟩ ∅]

/-- The shared caller has a line, below one of the two ways, and the method itself has
none. -/
theorem callerTrace_diamond :
    (built diamondCalls).Reachable
    ∧ (callers ((built diamondCalls).callerTrace "<app.C: void c()>").lines).Nodup
    ∧ "<app.C: void c()>" ∉ callers ((built diamondCalls).callerTrace "<app.C: void c()>").lines
    ∧ ∃ before line after,
        ((built diamondCalls).callerTrace "<app.C: void c()>").lines = before ++ line :: after
        ∧ line.caller = "<app.Main: void run()>"
        ∧ (parent? "<app.C: void c()>" before line.depth = some "<app.A: void a()>"
          ∨ parent? "<app.C: void c()>" before line.depth = some "<app.B: void b()>") := by
  have hreachable : (built diamondCalls).Reachable := ⟨diamondCalls, rfl⟩
  obtain ⟨hnodup, hmem, hedge⟩ := callerTrace_tree hreachable "<app.C: void c()>"
  refine ⟨hreachable, hnodup, fun hself => ((hmem _).mp hself).1 rfl, ?_⟩
  have hleads : (built diamondCalls).Leads 2 "<app.Main: void run()>" "<app.C: void c()>" := by
    refine ⟨"<app.A: void a()>", ?_, "<app.C: void c()>", ?_, rfl⟩
    · show ∃ e ∈ (built diamondCalls).storedEdges, _
      decide +kernel
    · show ∃ e ∈ (built diamondCalls).storedEdges, _
      decide +kernel
  obtain ⟨line, hline, hcaller⟩ := List.mem_map.mp ((hmem _).mpr ⟨by decide, 2, hleads⟩)
  obtain ⟨before, after, hsplit⟩ := List.append_of_mem hline
  obtain ⟨e, hstored, hsource, _, hparent⟩ := hedge before line after hsplit
  refine ⟨before, line, after, hsplit, hcaller, ?_⟩
  rw [hcaller] at hsource
  have hways : ∀ e ∈ (built diamondCalls).storedEdges, e.source = "<app.Main: void run()>" →
      e.target = "<app.A: void a()>" ∨ e.target = "<app.B: void b()>" := by
    decide +kernel
  rw [hparent]
  exact (hways e hstored hsource).imp (congrArg some) (congrArg some)

end ApiGuard.CallGraph
