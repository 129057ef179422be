/-
  ApiGuard.Proofs.Guard.Recursion
  ───────────────────────────────
  Recording the calls of a body by plain recursion.

  `Recording.visit` is the walk as one would first write it down: it visits a
  place, records the call there, and calls itself for each successor, with one
  set of unseen places for the whole body.  `recordBody` works on a stack of
  frames, follows chains in a loop and passes over returns, and leaves the very
  same graph:

      recordBody_eq_recordEntries  :
        g.recordBody subtypes markers body = g.recordEntries subtypes markers body
-/
import ApiGuard.Proofs.Guard.Recording

namespace ApiGuard

/-! ## §1. The recursion. -/

/-- How far a recording has come. -/
structure Recording where
  graph : CallGraph
  /-- The places not visited. -/
  unseen : SortedSet Nat

namespace Recording

/-- The recording once a place is visited. -/
def mark (r : Recording) (subtypes : Subtyping) (body : Body) (i : Nat) (c : PathCondition) :
    Recording where
  graph := r.graph.recordAt subtypes body i c
  unseen := r.unseen.erase i

section

variable (subtypes : Subtyping) (markers : GuardMarkers) (body : Body)

mutual

/-- Visit a place and all that control reaches from it, given the taint before
the statement and the condition of the way.  Where the condition of a branch
reads a tainted local, the target comes first, and the ways get a token. -/
def visit (r : Recording) (i : Nat) (taint : Taint) (c : PathCondition) :
    { r' : Recording // r'.unseen.size ≤ r.unseen.size } :=
  if h : i ∈ r.unseen then
    have hmark : (r.mark subtypes body i c).unseen.size < r.unseen.size :=
      SortedSet.size_erase_lt h
    match Walk.guardAt? body (taint.after markers body i) i, body.branchTarget? i with
    | some p, some target =>
      let taken := visit (r.mark subtypes body i c) target (taint.after markers body i)
        (c.insert (.holds p.render))
      let others := visitEach taken.1 ((body.successors i).filter (· ≠ target))
        (taint.after markers body i) (c.insert (.negated p.render))
      ⟨others.1, Nat.le_trans others.2 (Nat.le_trans taken.2 (Nat.le_of_lt hmark))⟩
    | _, _ =>
      let all := visitEach (r.mark subtypes body i c) (body.successors i)
        (taint.after markers body i) c
      ⟨all.1, Nat.le_trans all.2 (Nat.le_of_lt hmark)⟩
  else ⟨r, Nat.le_refl _⟩
termination_by (r.unseen.size, 0)
decreasing_by
  · exact .left _ _ hmark
  · exact .left _ _ (Nat.lt_of_le_of_lt taken.2 hmark)
  · exact .left _ _ hmark

/-- Visit several places in turn, each with a taint and condition of its own that
are alike at the start. -/
def visitEach (r : Recording) (js : List Nat) (taint : Taint) (c : PathCondition) :
    { r' : Recording // r'.unseen.size ≤ r.unseen.size } :=
  match js with
  | [] => ⟨r, Nat.le_refl _⟩
  | j :: rest =>
    let first := visit r j taint c
    let others := visitEach first.1 rest taint c
    ⟨others.1, Nat.le_trans others.2 first.2⟩
termination_by (r.unseen.size, js.length + 1)
decreasing_by
  · exact .right _ (Nat.succ_pos _)
  · rcases Nat.lt_or_eq_of_le first.2 with hlt | heq
    · exact .left _ _ hlt
    · rw [heq]
      exact .right _ (by simp)

end

/-- Visit the place of a frame. -/
def visitFrame (r : Recording) (f : Frame) : Recording :=
  (visit subtypes markers body r f.place f.taint f.condition).1

end

variable {subtypes : Subtyping} {markers : GuardMarkers} {body : Body}

/-! ## §2. The recursion goes through frames. -/

theorem visitEach_eq (js : List Nat) (taint : Taint) (c : PathCondition) :
    ∀ r : Recording, (visitEach subtypes markers body r js taint c).1
      = (js.map fun j => (⟨j, taint, c⟩ : Frame)).foldl (visitFrame subtypes markers body) r := by
  induction js with
  | nil =>
      intro r
      rw [visitEach]
      rfl
  | cons j rest ih =>
      intro r
      rw [visitEach]
      exact ih _

theorem visitFrame_of_not_mem {r : Recording} {f : Frame} (h : f.place ∉ r.unseen) :
    visitFrame subtypes markers body r f = r := by
  unfold visitFrame
  rw [visit, dif_neg h]

/-- A guard has a place to go to if its condition holds. -/
theorem exists_branchTarget?_of_guardAt? {taint : Taint} {i : Nat} {p : Predicate}
    (h : Walk.guardAt? body taint i = some p) :
    ∃ target, body.branchTarget? i = some target := by
  unfold Walk.guardAt? at h
  split at h
  next => exact Body.exists_branchTarget?_of_condition? (Option.eq_some_of_filter_eq_some h)
  next => cases h

/-- To visit a place is to record its call and to visit the frames after it. -/
theorem visitFrame_of_mem {r : Recording} {f : Frame} (h : f.place ∈ r.unseen) :
    visitFrame subtypes markers body r f
      = (Walk.onward markers body f).foldl (visitFrame subtypes markers body)
          (r.mark subtypes body f.place f.condition) := by
  unfold visitFrame
  rw [visit, dif_pos h]
  unfold Walk.onward Walk.order Walk.advance Walk.token?
  cases hguard : Walk.guardAt? body (f.taint.after markers body f.place) f.place with
  | none =>
      show (visitEach ..).1 = _
      rw [visitEach_eq]
      rfl
  | some p =>
      obtain ⟨target, htarget⟩ := exists_branchTarget?_of_guardAt? hguard
      rw [htarget]
      show (visitEach ..).1 = _
      rw [visitEach_eq, List.map_cons, List.foldl_cons]
      -- the first frame is the one of the target, and no other is
      have hothers : ∀ j ∈ (body.successors f.place).filter (· ≠ target),
          (if some target = some j then GuardToken.holds p.render else .negated p.render)
            = .negated p.render := by
        intro j hj
        have hne : j ≠ target := by simpa using (List.mem_filter.mp hj).2
        exact if_neg fun heq => hne (Option.some.inj heq).symm
      congr 1
      · simp only [Option.map_some, if_true]
      · refine List.map_congr_left fun j hj => ?_
        simp only [Option.map_some, hothers j hj]

/-! ## §3. Both record the same calls. -/

/-- The recursion records the calls of the exploration. -/
theorem visitFrames_of_explores {unseen left : SortedSet Nat} {frames : List Frame}
    {visits : List Visit} (h : Walk.Explores markers body unseen frames visits left) :
    ∀ g : CallGraph, frames.foldl (visitFrame subtypes markers body) ⟨g, unseen⟩
      = ⟨g.recordVisits subtypes body visits, left⟩ := by
  induction h with
  | done => intro g; rfl
  | skip seen _ ih =>
      intro g
      rw [List.foldl_cons, visitFrame_of_not_mem seen, ih]
  | @enter unseen middle left f rest below after new _ _ ihi ihn =>
      intro g
      rw [List.foldl_cons, visitFrame_of_mem new]
      -- the frames after this one start from the graph with its call recorded
      have hinner := ihi (g.recordAt subtypes body f.place f.condition)
      unfold mark
      rw [hinner, ihn, ← CallGraph.recordVisits_append]
      rfl

end Recording

/-- Record the calls of a body by recursion: visit each entry in turn, without
taint and condition, and with one set of unseen places for all. -/
def CallGraph.recordEntries (g : CallGraph) (subtypes : Subtyping) (markers : GuardMarkers)
    (body : Body) : CallGraph :=
  (body.entries.foldl (fun r i => (Recording.visit subtypes markers body r i ∅ ∅).1)
    ⟨g, Walk.places body⟩).graph

/-- The walk over a stack of frames leaves the graph that the recursion leaves. -/
theorem CallGraph.recordBody_eq_recordEntries (g : CallGraph) (subtypes : Subtyping)
    (markers : GuardMarkers) (body : Body) :
    g.recordBody subtypes markers body = g.recordEntries subtypes markers body := by
  obtain ⟨visits, left, hexplores⟩ :=
    Walk.exists_explores markers body (Walk.places body) (body.entries.map Frame.entry)
  have hframes : (body.entries.map Frame.entry).foldl (Recording.visitFrame subtypes markers body)
      ⟨g, Walk.places body⟩ = _ := Recording.visitFrames_of_explores hexplores g
  rw [List.foldl_map] at hframes
  rw [hexplores.recordBody_eq]
  unfold CallGraph.recordEntries
  exact (congrArg Recording.graph hframes).symm

end ApiGuard
