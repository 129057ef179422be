/-
  ApiGuard.Proofs.Body.Graph
  ──────────────────────────
  The flow of control through a body that is built from statements.

  A statement leads to the one that bears the label it names, and to the next one unless it
  jumps or leaves the method (`LeadsTo`).  In the body control goes where the statements
  lead:

      of_build                     what stands at the places of the body
      mem_successors_iff           the successors of a place by the flow there
      mem_successors_iff_leadsTo   and by the statements
      graph_exact                  successors, targets of branches and entries
-/
import ApiGuard.Proofs.Body.Entries
import ApiGuard.Proofs.Body.Faults

namespace ApiGuard

/-- May control go on with the next statement? -/
def Flow.goesOn : Flow → Bool
  | .branch _ | .next => true
  | .jump _ | .stop => false

namespace Body

/-- Control goes from the statement, at the first place, to the other: to the one that bears
the label that a branch or a jump names, and to the next one if there is one, except from
jumps, returns and throws. -/
def Leads (stmts : List LabeledStatement) (i j : Nat) : Statement → Prop
  | .branch _ label => Bears stmts j label ∨ (j = i + 1 ∧ j < stmts.length)
  | .goto label => Bears stmts j label
  | .ret _ | .throw _ => False
  | .assign _ _ | .invoke _ | .nop => j = i + 1 ∧ j < stmts.length

/-- Control goes from the one place to the other, by the statement that is there. -/
def LeadsTo (stmts : List LabeledStatement) (i j : Nat) : Prop :=
  ∃ s, stmts[i]? = some s ∧ Leads stmts i j s.statement

variable {signature : String} {stmts : List LabeledStatement} {body : Body} {i j : Nat}

/-! ## §1. The places of the body. -/

/-- The body has the statements in order, each with its flow. -/
theorem of_build (h : build signature stmts = .ok body) :
    body.signature = signature ∧ stmts ≠ [] ∧ AreDistinct stmts ∧ AreKnown stmts
      ∧ List.Forall₂ (fun s step => step.statement = s.statement
          ∧ flowOf (placeOf? stmts) s.statement = .ok step.flow) stmts body.steps.toList := by
  rcases isFault_or_build signature stmts with
    ⟨e, hfault⟩ | ⟨hne, hdistinct, hknown, built, steps, hbuilt, hsignature, hresolve, hsteps⟩
  · rw [hfault.build_eq] at h
    cases h
  · obtain rfl : built = body := Except.ok.inj (hbuilt.symm.trans h)
    refine ⟨hsignature, hne, hdistinct, hknown, ?_⟩
    rw [hsteps]
    rw [resolve_eq_mapM, Traversal.mapM_eq_ok_iff] at hresolve
    exact hresolve.imp fun s step hstep => stepOf_eq_ok_iff.mp hstep

theorem size_of_build (h : build signature stmts = .ok body) : body.size = stmts.length := by
  obtain ⟨_, _, _, _, hsteps⟩ := of_build h
  exact hsteps.length_eq.symm

/-- The statement and the flow at a place. -/
theorem of_build_getElem? (h : build signature stmts = .ok body) {s : LabeledStatement}
    (hs : stmts[i]? = some s) :
    body.statement? i = some s.statement
      ∧ ∃ flow, body.flow? i = some flow
          ∧ flowOf (placeOf? stmts) s.statement = .ok flow := by
  obtain ⟨_, _, _, _, hsteps⟩ := of_build h
  obtain ⟨hlength, hitems⟩ := List.forall₂_iff_get.mp hsteps
  obtain ⟨hi, rfl⟩ := List.getElem?_eq_some_iff.mp hs
  obtain ⟨hstatement, hflow⟩ := hitems i hi (hlength ▸ hi)
  have hstep : body.steps[i]? = some (body.steps.toList.get ⟨i, hlength ▸ hi⟩) := by
    rw [← Array.getElem?_toList]
    exact List.getElem?_eq_getElem _
  unfold statement? flow?
  rw [hstep]
  exact ⟨congrArg some hstatement, _, rfl, hflow⟩

theorem statement?_of_build (h : build signature stmts = .ok body) (i : Nat) :
    body.statement? i = stmts[i]?.map (·.statement) := by
  cases hs : stmts[i]? with
  | some s => exact (of_build_getElem? h hs).1
  | none =>
      have hge : body.steps.size ≤ i := by
        rw [show body.steps.size = stmts.length from size_of_build h]
        exact List.getElem?_eq_none_iff.mp hs
      unfold statement?
      rw [Array.getElem?_eq_none hge]
      rfl

/-- Where there is a flow there is a statement. -/
theorem exists_getElem?_of_flow? (h : build signature stmts = .ok body) {flow : Flow}
    (hflow : body.flow? i = some flow) :
    ∃ s, stmts[i]? = some s ∧ flowOf (placeOf? stmts) s.statement = .ok flow := by
  have hi : i < stmts.length := by
    rw [← size_of_build h]
    obtain ⟨step, hstep, _⟩ := Option.map_eq_some_iff.mp hflow
    exact (Array.getElem?_eq_some_iff.mp hstep).1
  obtain ⟨s, hs⟩ : ∃ s, stmts[i]? = some s := ⟨_, List.getElem?_eq_getElem hi⟩
  obtain ⟨_, flow', hflow', hof⟩ := of_build_getElem? h hs
  obtain rfl : flow' = flow := Option.some.inj (hflow'.symm.trans hflow)
  exact ⟨s, hs, hof⟩

/-! ## §2. Successors. -/

/-- After a statement comes the one at the next place, if there is one. -/
theorem next?_eq_some_iff : body.next? i = some j ↔ j = i + 1 ∧ j < body.size := by
  unfold next?
  split
  next hlt =>
      rw [Option.some.injEq]
      constructor
      · intro heq
        subst heq
        exact ⟨rfl, hlt⟩
      · intro hnext
        exact hnext.1.symm
  next hge =>
      refine iff_of_false (fun h => by cases h) ?_
      intro hnext
      obtain ⟨heq, hlt⟩ := hnext
      omega

/-- Control goes to the place that the flow names, and on with the next one if it may. -/
theorem mem_successors_iff :
    j ∈ body.successors i
      ↔ ∃ flow, body.flow? i = some flow
          ∧ (flow.target? = some j ∨ (flow.goesOn = true ∧ body.next? i = some j)) := by
  unfold successors
  cases hflow : body.flow? i with
  | none => simp
  | some flow =>
      cases flow with
      | stop => simp [Flow.target?, Flow.goesOn]
      | next => simp [Flow.target?, Flow.goesOn]
      | jump target =>
          simp only [List.mem_singleton, Option.some.injEq, exists_eq_left', Flow.target?,
            Flow.goesOn, Bool.false_eq_true, false_and, or_false]
          exact eq_comm
      | branch target =>
          simp only [Option.some.injEq, exists_eq_left', Flow.target?, Flow.goesOn, true_and]
          cases hnext : body.next? i with
          | none =>
              rw [List.mem_singleton, or_iff_left (fun hno => by cases hno)]
              exact eq_comm
          | some next =>
              -- the target comes before the next place or after it, or both are one
              show j ∈ (if target < next then [target, next]
                else if target = next then [next] else [next, target])
                ↔ target = j ∨ some next = some j
              rw [Option.some.injEq]
              split
              next => rw [List.mem_pair, @eq_comm _ j, @eq_comm _ j]
              next =>
                  split
                  next heq => rw [List.mem_singleton, heq, or_self, eq_comm]
                  next => rw [List.mem_pair, or_comm, @eq_comm _ j, @eq_comm _ j]

/-- The place of a label is the only one that bears it. -/
theorem eq_iff_bears (hdistinct : AreDistinct stmts) {label : String}
    (h : placeOf? stmts label = some i) : some i = some j ↔ Bears stmts j label := by
  rw [← h]
  exact placeOf?_eq_some_iff hdistinct

/-- Where the flow of a statement goes is where the statement leads. -/
theorem goes_iff_leads (hdistinct : AreDistinct stmts) {s : Statement} {flow : Flow}
    (h : flowOf (placeOf? stmts) s = .ok flow) :
    (flow.target? = some j ∨ (flow.goesOn = true ∧ j = i + 1 ∧ j < stmts.length))
      ↔ Leads stmts i j s := by
  cases s with
  | branch _ label =>
      simp only [flowOf] at h
      split at h
      next k hk =>
          cases h
          show (some k = some j ∨ (true = true ∧ _)) ↔ Bears stmts j label ∨ _
          rw [eq_iff_bears hdistinct hk, eq_self, true_and]
      next => cases h
  | goto label =>
      simp only [flowOf] at h
      split at h
      next k hk =>
          cases h
          show (some k = some j ∨ (false = true ∧ _)) ↔ Bears stmts j label
          rw [eq_iff_bears hdistinct hk, or_iff_left (fun hno => Bool.noConfusion hno.1)]
      next => cases h
  | ret | throw | assign | invoke | nop =>
      cases h
      simp [Flow.target?, Flow.goesOn, Leads]

/-- The successors of a place are those to which its statement leads. -/
theorem mem_successors_iff_leadsTo (h : build signature stmts = .ok body) :
    j ∈ body.successors i ↔ LeadsTo stmts i j := by
  obtain ⟨_, _, hdistinct, _, _⟩ := of_build h
  rw [mem_successors_iff, next?_eq_some_iff, size_of_build h]
  constructor
  · intro hgoes
    obtain ⟨flow, hflow, hgoes⟩ := hgoes
    obtain ⟨s, hs, hof⟩ := exists_getElem?_of_flow? h hflow
    exact ⟨s, hs, (goes_iff_leads hdistinct hof).mp hgoes⟩
  · intro hleads
    obtain ⟨s, hs, hleads⟩ := hleads
    obtain ⟨_, flow, hflow, hof⟩ := of_build_getElem? h hs
    exact ⟨flow, hflow, (goes_iff_leads hdistinct hof).mpr hleads⟩

/-! ## §3. Targets of branches. -/

/-- The place to which a branch goes is the one that bears its label. -/
theorem branchTarget?_of_branch (h : build signature stmts = .ok body) {s : LabeledStatement}
    {p : Predicate} {label : String} (hs : stmts[i]? = some s)
    (hbranch : s.statement = .branch p label) :
    ∃ target, Bears stmts target label ∧ body.branchTarget? i = some target := by
  obtain ⟨_, flow, hflow, hof⟩ := of_build_getElem? h hs
  rw [hbranch] at hof
  simp only [flowOf] at hof
  split at hof
  next target htarget =>
      cases hof
      refine ⟨target, bears_of_placeOf? htarget, ?_⟩
      unfold branchTarget?
      rw [hflow]
  next => cases hof

/-- Where there is no branch there is no target of one. -/
theorem exists_branch_of_branchTarget? (h : build signature stmts = .ok body) {target : Nat}
    (htarget : body.branchTarget? i = some target) :
    ∃ s p label, stmts[i]? = some s ∧ s.statement = .branch p label := by
  unfold branchTarget? at htarget
  split at htarget
  next t hflow =>
      obtain ⟨s, hs, hof⟩ := exists_getElem?_of_flow? h hflow
      have hfits := fits_of_flowOf hof
      cases hstatement : s.statement with
      | branch p label => exact ⟨s, p, label, hs, hstatement⟩
      | assign | invoke | goto | ret | throw | nop => rw [hstatement] at hfits; cases hfits
  next => cases htarget

/-! ## §4. The graph. -/

theorem pairwise_entries (body : Body) : body.entries.Pairwise (· < ·) :=
  List.pairwise_lt_range.filter _

/-- In a body that is built from statements the labels are distinct, and each of those that
branches and jumps name is borne by a statement.

The successors of a place are listed in increasing order, each once.  They are the places to
which the statement leads, and all of them are places of the body.  The target of a branch
is the place that bears its label, and one of the successors; no other statement has one.
The entries are, in increasing order, the first place and those that are no successors. -/
theorem graph_exact (h : build signature stmts = .ok body) :
    AreDistinct stmts ∧ AreKnown stmts ∧ body.size = stmts.length
    ∧ (∀ i, body.statement? i = stmts[i]?.map (·.statement))
    ∧ (∀ i, (body.successors i).Pairwise (· < ·) ∧ (body.successors i).Nodup
        ∧ ∀ j, (j ∈ body.successors i ↔ LeadsTo stmts i j)
          ∧ (j ∈ body.successors i → j < body.size))
    ∧ (∀ i s, stmts[i]? = some s → ∀ p label, s.statement = .branch p label →
        ∃ target, Bears stmts target label ∧ body.branchTarget? i = some target)
    ∧ (∀ i target, body.branchTarget? i = some target →
        target ∈ body.successors i
        ∧ ∃ s p label, stmts[i]? = some s ∧ s.statement = .branch p label)
    ∧ body.entries.Pairwise (· < ·)
    ∧ (∀ i, i ∈ body.entries
        ↔ i = 0 ∨ (i < body.size ∧ ∀ j, i ∉ body.successors j)) := by
  obtain ⟨_, hne, hdistinct, hknown, _⟩ := of_build h
  have hsize : body.size = stmts.length := size_of_build h
  refine ⟨hdistinct, hknown, hsize, statement?_of_build h, fun i => ?_,
    fun i s hs p label hbranch => branchTarget?_of_branch h hs hbranch, fun i target htarget =>
    ⟨mem_successors_of_branchTarget? htarget, exists_branch_of_branchTarget? h htarget⟩,
    pairwise_entries body, fun i => ?_⟩
  · have hincreasing : (body.successors i).Pairwise (· < ·) := pairwise_successors i
    exact ⟨hincreasing, hincreasing.imp Nat.ne_of_lt, fun j =>
      ⟨mem_successors_iff_leadsTo h, lt_size_of_mem_successors⟩⟩
  · rw [mem_entries_iff]
    have hpositive : 0 < body.size := by
      rw [hsize]
      exact List.length_pos_iff.mpr hne
    constructor
    · intro hentry
      obtain ⟨hi, hzero | hnone⟩ := hentry
      · exact .inl hzero
      · exact .inr ⟨hi, hnone⟩
    · intro hentry
      rcases hentry with rfl | ⟨hi, hnone⟩
      · exact ⟨hpositive, .inl rfl⟩
      · exact ⟨hi, .inr hnone⟩

/-- Statements with a branch to the next one, a branch back, and a handler that nothing leads
to. -/
def retryStatements : List LabeledStatement :=
  [⟨none, .assign "sdk" (.field versionNumberField)⟩,
    ⟨some "again", .branch ⟨.localVar "sdk", .lt, .int 26⟩ "call"⟩,
    ⟨some "call", .invoke ⟨.interface, "<app.Listener: void on()>", [], false⟩⟩,
    ⟨none, .branch ⟨.localVar "sdk", .ge, .int 26⟩ "again"⟩,
    ⟨none, .goto "end"⟩,
    ⟨none, .throw (.localVar "error")⟩,
    ⟨some "end", .ret none⟩]

/-- The body of these statements. -/
def retryBody : Body where
  signature := "<app.Main: void retry()>"
  steps := #[
    ⟨.assign "sdk" (.field versionNumberField), .next⟩,
    ⟨.branch ⟨.localVar "sdk", .lt, .int 26⟩ "call", .branch 2⟩,
    ⟨.invoke ⟨.interface, "<app.Listener: void on()>", [], false⟩, .next⟩,
    ⟨.branch ⟨.localVar "sdk", .ge, .int 26⟩ "again", .branch 1⟩,
    ⟨.goto "end", .jump 6⟩,
    ⟨.throw (.localVar "error"), .stop⟩,
    ⟨.ret none, .stop⟩]
  target_lt := by decide
  flow_fits := by decide

theorem build_retryStatements :
    build "<app.Main: void retry()>" retryStatements = .ok retryBody := by
  cbv

/-- The branch to the next statement has it as its only successor, and the handler, to which
nothing leads, is an entry. -/
theorem graph_exact_retry :
    build "<app.Main: void retry()>" retryStatements = .ok retryBody
    ∧ retryBody.successors 1 = [2] ∧ LeadsTo retryStatements 1 2
    ∧ (∃ target, Bears retryStatements target "call" ∧ retryBody.branchTarget? 1 = some target)
    ∧ 2 ∈ retryBody.successors 1
    ∧ retryBody.successors 3 = [1, 4] ∧ (retryBody.successors 3).Pairwise (· < ·)
    ∧ 5 ∈ retryBody.entries ∧ (∀ j, 5 ∉ retryBody.successors j) := by
  obtain ⟨_, _, _, _, hsuccessors, hbranch, htarget, _, hentries⟩ :=
    graph_exact build_retryStatements
  have hone : retryBody.successors 1 = [2] := by decide
  have hthree : retryBody.successors 3 = [1, 4] := by decide
  have hentry : 5 ∈ retryBody.entries := by decide
  refine ⟨build_retryStatements, hone, ((hsuccessors 1).2.2 2).1.mp (by simp [hone]),
    hbranch 1 _ rfl _ _ rfl, (htarget 1 2 (by decide)).1, hthree, (hsuccessors 3).1, hentry, ?_⟩
  rcases (hentries 5).mp hentry with hzero | ⟨_, hnone⟩
  · cases hzero
  · exact hnone

end Body

end ApiGuard
