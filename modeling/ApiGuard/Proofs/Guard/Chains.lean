/-
  ApiGuard.Proofs.Guard.Chains
  ────────────────────────────
  The walk over a stack of frames visits what a depth-first exploration visits.

  The walk follows chains of statements without putting them on the stack, and
  does not enter a return from a chain, so it may leave returns that the
  exploration visits, or visit them later.  Apart from returns both have the same
  visits in the same order:

      proceed_eq           what the walk does with a frame, step by step
      Explores.run_eq      the walk explores the frames on top of its stack
      Explores.visits_eq   the walk of a body explores its entries
-/
import ApiGuard.Proofs.Guard.Exploration

namespace ApiGuard.Walk

variable {markers : GuardMarkers} {body : Body}

/-! ## §1. The frames after a frame. -/

theorem update_eq (f : Frame) :
    update markers body f = { f with taint := f.taint.after markers body f.place } := by
  unfold update Taint.after
  cases body.statement? f.place <;> rfl

theorem guard?_eq (taint : Taint) (i : Nat) :
    guard? body taint i = (body.condition? i).bind fun p =>
      (body.branchTarget? i).bind fun target =>
        if taint.isGuard p then some (p, target) else none := by
  unfold guard? Body.condition?
  cases body.statement? i <;> rfl

/-- A statement with at most one successor is no guard. -/
theorem guardAt?_eq_none {taint : Taint} {i : Nat} (h : (body.successors i).length < 2) :
    guardAt? body taint i = none := by
  unfold guardAt?
  rw [if_neg (by omega)]

/-- Where control does not part the frame after a frame only moves on. -/
theorem onward_of_length_lt {f : Frame} (h : (body.successors f.place).length < 2) :
    onward markers body f
      = (body.successors f.place).map fun j => { update markers body f with place := j } := by
  have hnone : guardAt? body (f.taint.after markers body f.place) f.place = none :=
    guardAt?_eq_none h
  unfold onward order advance token?
  rw [hnone, update_eq]
  rfl

/-- Where control parts the frames after a frame are those of the branch. -/
theorem onward_of_two_le {f : Frame} (h : 2 ≤ (body.successors f.place).length) :
    onward markers body f
      = branch body (update markers body f) (body.successors f.place) := by
  unfold onward order advance token? branch guardAt?
  rw [if_pos h, guard?_eq, update_eq]
  cases hp : body.condition? f.place with
  | none => rfl
  | some p =>
      obtain ⟨target, htarget⟩ := Body.exists_branchTarget?_of_condition? hp
      by_cases hg : (f.taint.after markers body f.place).isGuard p = true
      · simp only [Option.filter, hg, htarget, Option.map_some, Option.bind_some, if_true,
          List.map_cons, List.cons.injEq, true_and]
        -- no other frame is that of the target
        refine List.map_congr_left fun j hj => ?_
        have hne : target ≠ j := by
          intro heq
          simp [heq] at hj
        rw [if_neg (by simpa using hne)]
      · simp only [Option.filter, hg, htarget, Option.map_none, Option.bind_some,
          Bool.false_eq_true, if_false]

/-! ## §2. What the walk does with a frame. -/

/-- The visits from a frame whose place is just entered, and from the frames
below it on the stack. -/
def proceed (markers : GuardMarkers) (body : Body) (unseen : SortedSet Nat) (f : Frame)
    (stack : List Frame) : List Visit :=
  let r := follow markers body unseen f
  r.1 ++ run markers body r.2.1 (r.2.2 ++ stack)

theorem run_of_mem {unseen : SortedSet Nat} {f : Frame} {stack : List Frame}
    (h : f.place ∈ unseen) :
    run markers body unseen (f :: stack)
      = proceed markers body (unseen.erase f.place) f stack := by
  rw [run, if_pos h]
  rfl

theorem run_of_not_mem {unseen : SortedSet Nat} {f : Frame} {stack : List Frame}
    (h : f.place ∉ unseen) :
    run markers body unseen (f :: stack) = run markers body unseen stack := by
  rw [run, if_neg h]

/-- The walk visits the place and goes on with the frames after it, unless that
is a single return, which it passes over. -/
theorem proceed_eq (unseen : SortedSet Nat) (f : Frame) (stack : List Frame) :
    proceed markers body unseen f stack
        = ⟨f.place, f.condition⟩ :: run markers body unseen (onward markers body f ++ stack)
      ∨ (∃ g, onward markers body f = [g] ∧ isReturn body g.place = true
          ∧ proceed markers body unseen f stack
              = ⟨f.place, f.condition⟩ :: run markers body unseen stack) := by
  unfold proceed
  match hsucc : body.successors f.place with
  | [] =>
      -- the way ends here
      left
      have honward : onward markers body f = _ := onward_of_length_lt (by simp [hsucc])
      rw [honward, follow, hsucc]
      rfl
  | [j] =>
      have honward : onward markers body f = _ := onward_of_length_lt (by simp [hsucc])
      rw [hsucc] at honward
      by_cases hj : j ∈ unseen
      · -- the chain goes on, except into a return
        by_cases hret : isReturn body j = true
        · right
          refine ⟨_, honward, hret, ?_⟩
          rw [follow, hsucc]
          simp [hret]
        · left
          have hchain : j ∈ unseen ∧ isReturn body j = false := ⟨hj, by simpa using hret⟩
          rw [honward, follow, hsucc]
          simp only [if_pos hchain]
          show _ :: _ = _ :: run markers body unseen (_ :: stack)
          rw [run_of_mem hj]
          rfl
      · -- the chain has met a place entered before, and so does the stack
        left
        have hchain : ¬ (j ∈ unseen ∧ isReturn body j = false) := fun h => hj h.1
        rw [honward, follow, hsucc]
        simp only [if_neg hchain]
        show _ :: _ = _ :: run markers body unseen (_ :: stack)
        rw [run_of_not_mem hj]
        rfl
  | j :: k :: rest =>
      -- control parts, and the chain ends with the frames of the branch
      left
      have honward : onward markers body f = _ := onward_of_two_le (by simp [hsucc])
      rw [honward, follow, hsucc]
      rfl

/-! ## §3. The walk explores. -/

/-- Sets that differ in returns at most. -/
def SameButReturns (body : Body) (s t : SortedSet Nat) : Prop :=
  ∀ i, isReturn body i = false → (i ∈ s ↔ i ∈ t)

/-- The visits of places that do not return. -/
def properVisits (body : Body) (visits : List Visit) : List Visit :=
  visits.filter fun v => !isReturn body v.place

theorem SameButReturns.erase {s t : SortedSet Nat} (h : SameButReturns body s t) (i : Nat) :
    SameButReturns body (s.erase i) (t.erase i) := by
  intro j hj
  rw [SortedSet.mem_erase, SortedSet.mem_erase, h j hj]

theorem SameButReturns.erase_left {s t : SortedSet Nat} (h : SameButReturns body s t) {i : Nat}
    (hi : isReturn body i = true) : SameButReturns body (s.erase i) t := by
  intro j hj
  have hne : j ≠ i := by
    intro heq
    rw [heq, hi] at hj
    cases hj
  rw [SortedSet.mem_erase, ← h j hj]
  exact and_iff_right hne

theorem SameButReturns.symm {s t : SortedSet Nat} (h : SameButReturns body s t) :
    SameButReturns body t s := fun i hi => (h i hi).symm

theorem SameButReturns.trans {s t u : SortedSet Nat} (h : SameButReturns body s t)
    (h' : SameButReturns body t u) : SameButReturns body s u :=
  fun i hi => (h i hi).trans (h' i hi)

theorem properVisits_append (l m : List Visit) :
    properVisits body (l ++ m) = properVisits body l ++ properVisits body m :=
  List.filter_append ..

theorem properVisits_cons_of_return {v : Visit} {l : List Visit}
    (h : isReturn body v.place = true) : properVisits body (v :: l) = properVisits body l := by
  unfold properVisits
  rw [List.filter_cons_of_neg (by simp [h])]

theorem properVisits_cons {v : Visit} {l : List Visit} (h : isReturn body v.place = false) :
    properVisits body (v :: l) = v :: properVisits body l := by
  unfold properVisits
  rw [List.filter_cons_of_pos (by simp [h])]

/-- No frame comes after one at a return. -/
theorem onward_of_return {f : Frame} (h : isReturn body f.place = true) :
    onward markers body f = [] := by
  have hsucc := Body.successors_eq_nil_of_isReturn h
  rw [onward_of_length_lt (by simp [hsucc]), hsucc]
  rfl

/-- To explore a return visits nothing else. -/
theorem Explores.of_return {unseen left : SortedSet Nat} {f : Frame} {visits : List Visit}
    (h : Explores markers body unseen [f] visits left) (hret : isReturn body f.place = true) :
    properVisits body visits = [] ∧ SameButReturns body unseen left := by
  have hsame : SameButReturns body unseen unseen := fun _ _ => Iff.rfl
  cases h with
  | skip _ next =>
      cases next
      exact ⟨rfl, hsame⟩
  | enter _ inner next =>
      rw [onward_of_return hret] at inner
      cases inner
      cases next
      refine ⟨?_, (hsame.erase_left hret).symm⟩
      rw [properVisits_cons_of_return hret]
      rfl

/-- What the walk does with a frame at a return: nothing that counts. -/
theorem run_of_return {f : Frame} (hret : isReturn body f.place = true)
    (unseen : SortedSet Nat) (stack : List Frame) :
    ∃ unseen', SameButReturns body unseen' unseen
      ∧ properVisits body (run markers body unseen (f :: stack))
          = properVisits body (run markers body unseen' stack) := by
  have hsame : SameButReturns body unseen unseen := fun _ _ => Iff.rfl
  by_cases hf : f.place ∈ unseen
  · refine ⟨unseen.erase f.place, hsame.erase_left hret, ?_⟩
    have honward : onward markers body f = [] := onward_of_return hret
    rw [run_of_mem hf]
    rcases proceed_eq (unseen.erase f.place) f stack with heq | ⟨g, hg, _, _⟩
    · rw [heq, honward, properVisits_cons_of_return hret]
      rfl
    · rw [honward] at hg
      cases hg
  · exact ⟨unseen, hsame, by rw [run_of_not_mem hf]⟩

/-- The walk explores the frames on top of its stack and then goes on with the
others.  The invariant is that the places left by both differ in returns at
most. -/
theorem Explores.run_eq {unseen left : SortedSet Nat} {frames : List Frame}
    {visits : List Visit} (h : Explores markers body unseen frames visits left)
    {unseen' : SortedSet Nat} (hsame : SameButReturns body unseen' unseen)
    (stack : List Frame) :
    ∃ left', SameButReturns body left' left
      ∧ properVisits body (run markers body unseen' (frames ++ stack))
          = properVisits body visits ++ properVisits body (run markers body left' stack) := by
  induction h generalizing unseen' stack with
  | done => exact ⟨unseen', hsame, rfl⟩
  | @skip unseen left f rest visits seen next ih =>
      rw [List.cons_append]
      by_cases hret : isReturn body f.place = true
      · -- the exploration has visited the return, the walk may not have entered it
        obtain ⟨unseen'', hsame', hrun⟩ := run_of_return hret unseen' (rest ++ stack)
        obtain ⟨left', hleft, hrest⟩ := ih (hsame'.trans hsame) stack
        exact ⟨left', hleft, hrun.trans hrest⟩
      · have hf : f.place ∉ unseen' :=
          fun hmem => seen ((hsame _ (by simpa using hret)).mp hmem)
        rw [run_of_not_mem hf]
        exact ih hsame stack
  | @enter unseen middle left f rest below after new inner next ihi ihn =>
      rw [List.cons_append]
      by_cases hret : isReturn body f.place = true
      · -- a return may have been entered before, or be entered only now
        obtain ⟨unseen'', hsame', hrun⟩ := run_of_return hret unseen' (rest ++ stack)
        rw [onward_of_return hret] at inner
        cases inner
        have herase := ((hsame'.trans hsame).symm.erase_left hret).symm
        obtain ⟨left', hleft, hrest⟩ := ihn herase stack
        refine ⟨left', hleft, ?_⟩
        rw [hrun, hrest, properVisits_cons_of_return hret]
        rfl
      · have hproper : isReturn body f.place = false := by simpa using hret
        have hf : f.place ∈ unseen' := (hsame _ hproper).mpr new
        have herase := hsame.erase f.place
        rw [run_of_mem hf, properVisits_cons hproper, properVisits_append]
        rcases proceed_eq (unseen'.erase f.place) f (rest ++ stack) with heq | ⟨g, hg, hgret, heq⟩
        · -- both go on with the frames after this one
          obtain ⟨middle', hmiddle, hbelow⟩ := ihi herase (rest ++ stack)
          obtain ⟨left', hleft, hafter⟩ := ihn hmiddle stack
          refine ⟨left', hleft, ?_⟩
          rw [heq, properVisits_cons hproper, hbelow, hafter, List.cons_append,
            List.append_assoc]
        · -- the chain stops before a return, which the exploration visits
          rw [hg] at inner
          obtain ⟨hbelow, hmiddle⟩ := inner.of_return hgret
          obtain ⟨left', hleft, hafter⟩ := ihn (herase.trans hmiddle) stack
          refine ⟨left', hleft, ?_⟩
          rw [heq, properVisits_cons hproper, hafter, hbelow]
          rfl

/-- The walk of a body explores its entries in turn. -/
theorem Explores.visits_eq {left : SortedSet Nat} {visits : List Visit}
    (h : Explores markers body (places body) (body.entries.map Frame.entry) visits left) :
    properVisits body (Walk.visits markers body) = properVisits body visits := by
  obtain ⟨left', _, hrun⟩ := h.run_eq (fun _ _ => Iff.rfl) []
  rw [List.append_nil] at hrun
  -- nothing is on the stack below the entries
  unfold Walk.visits
  rw [hrun, run]
  exact List.append_nil _

end ApiGuard.Walk
