/-
  ApiGuard.Proofs.Guard.Exploration
  ─────────────────────────────────
  Depth-first exploration of a body, place by place.

  `Explores markers body unseen frames visits left` says what visiting the given
  frames comes to: each in turn, with all that control reaches from it before the
  next.  A place in `unseen` is visited once, from the first frame that comes to
  it, and `left` are the places never visited.

      exists_explores       every exploration comes to an end
      Explores.mem_left     left are the places to which no way leads that keeps
                            to unseen places
      Explores.left_eq      so the order in which frames are visited, and what
                            they carry, does not matter for what is left
-/
import ApiGuard.Proofs.Body.Flow

namespace ApiGuard

/-- The taint after the statement at a place. -/
def Taint.after (markers : GuardMarkers) (body : Body) (taint : Taint) (i : Nat) : Taint :=
  match body.statement? i with
  | some s => taint.update markers s
  | none => taint

namespace Walk

/-! ## §1. Going on from a place. -/

/-- The condition of the branch at a place, if control parts there and the
condition reads a tainted local. -/
def guardAt? (body : Body) (taint : Taint) (i : Nat) : Option Predicate :=
  if 2 ≤ (body.successors i).length then (body.condition? i).filter taint.isGuard else none

/-- The token of the step from `i` to `j`, given the taint after the statement at
`i`. -/
def token? (body : Body) (taint : Taint) (i j : Nat) : Option GuardToken :=
  (guardAt? body taint i).map fun p =>
    if body.branchTarget? i = some j then .holds p.render else .negated p.render

/-- The successors of a place in the order in which they are visited: at a guard
the one where its condition holds comes first. -/
def order (body : Body) (taint : Taint) (i : Nat) : List Nat :=
  match guardAt? body taint i, body.branchTarget? i with
  | some _, some target => target :: (body.successors i).filter (· ≠ target)
  | _, _ => body.successors i

theorem mem_order {body : Body} {taint : Taint} {i j : Nat} :
    j ∈ order body taint i ↔ j ∈ body.successors i := by
  unfold order
  split
  next target _ htarget =>
      have hmem := Body.mem_successors_of_branchTarget? htarget
      by_cases hj : j = target
      · simp [hj, hmem]
      · simp [hj]
  next => exact Iff.rfl

variable (markers : GuardMarkers) (body : Body)

/-- The frame of a successor `j` of the place of a frame. -/
def advance (f : Frame) (j : Nat) : Frame where
  place := j
  taint := f.taint.after markers body f.place
  condition :=
    match token? body (f.taint.after markers body f.place) f.place j with
    | some token => f.condition.insert token
    | none => f.condition

/-- The frames of the successors, in the order in which they are visited. -/
def onward (f : Frame) : List Frame :=
  (order body (f.taint.after markers body f.place) f.place).map (advance markers body f)

variable {markers body}

/-- The frames after one are those of the successors of its place. -/
theorem mem_onward {f g : Frame} :
    g ∈ onward markers body f ↔
      ∃ j ∈ body.successors f.place, advance markers body f j = g := by
  unfold onward
  simp only [List.mem_map, mem_order]

/-! ## §2. Exploration. -/

variable (markers body)

/-- To visit the frames in turn, each with all that is reached from it before the
next, meets `visits` and leaves `left` of the places in `unseen`. -/
inductive Explores : SortedSet Nat → List Frame → List Visit → SortedSet Nat → Prop where
  /-- There is no frame. -/
  | done {unseen : SortedSet Nat} : Explores unseen [] [] unseen
  /-- The place of the first frame was visited before. -/
  | skip {unseen left : SortedSet Nat} {f : Frame} {rest : List Frame} {visits : List Visit}
      (seen : f.place ∉ unseen) (next : Explores unseen rest visits left) :
      Explores unseen (f :: rest) visits left
  /-- The place of the first frame is visited, then what is reached from there,
  then the other frames. -/
  | enter {unseen middle left : SortedSet Nat} {f : Frame} {rest : List Frame}
      {below after : List Visit} (new : f.place ∈ unseen)
      (inner : Explores (unseen.erase f.place) (onward markers body f) below middle)
      (next : Explores middle rest after left) :
      Explores unseen (f :: rest) (⟨f.place, f.condition⟩ :: (below ++ after)) left

variable {markers body}

theorem Explores.size_le {unseen left : SortedSet Nat} {frames : List Frame}
    {visits : List Visit} (h : Explores markers body unseen frames visits left) :
    left.size ≤ unseen.size := by
  induction h with
  | done => exact Nat.le_refl _
  | skip _ _ ih => exact ih
  | enter new _ _ ihi ihn =>
      have hlt := SortedSet.size_erase_lt new
      omega

variable (markers body) in
/-- Every exploration comes to an end. -/
theorem exists_explores (unseen : SortedSet Nat) (frames : List Frame) :
    ∃ visits left, Explores markers body unseen frames visits left := by
  induction hn : unseen.size using Nat.strongRecOn generalizing unseen frames with
  | _ n ih =>
    -- a frame at a place seen before takes no place away, so the frames need an
    -- induction of their own
    induction frames with
    | nil => exact ⟨[], unseen, .done⟩
    | cons f rest ihrest =>
        by_cases hf : f.place ∈ unseen
        · have hlt := SortedSet.size_erase_lt hf
          obtain ⟨below, middle, hbelow⟩ :=
            ih _ (hn ▸ hlt) (unseen.erase f.place) (onward markers body f) rfl
          have hmiddle := hbelow.size_le
          obtain ⟨after, left, hafter⟩ :=
            ih middle.size (by omega) middle rest rfl
          exact ⟨_, left, .enter hf hbelow hafter⟩
        · obtain ⟨visits, left, hrest⟩ := ihrest
          exact ⟨visits, left, .skip hf hrest⟩

/-! ## §3. What is visited and what is left. -/

theorem Explores.subset {unseen left : SortedSet Nat} {frames : List Frame}
    {visits : List Visit} (h : Explores markers body unseen frames visits left) {i : Nat}
    (hi : i ∈ left) : i ∈ unseen := by
  induction h with
  | done => exact hi
  | skip _ _ ih => exact ih hi
  | enter _ _ _ ihi ihn => exact (SortedSet.mem_erase.mp (ihi (ihn hi))).2

/-- Visited are the unseen places that are not left. -/
theorem Explores.mem_places {unseen left : SortedSet Nat} {frames : List Frame}
    {visits : List Visit} (h : Explores markers body unseen frames visits left) {i : Nat} :
    i ∈ visits.map Visit.place ↔ i ∈ unseen ∧ i ∉ left := by
  induction h with
  | done => simp
  | skip _ _ ih => exact ih
  | @enter unseen middle left f rest below after new inner next ihi ihn =>
      have hmiddle : i ∈ left → i ∈ middle := next.subset
      have herase : i ∈ middle → i ∈ unseen.erase f.place := inner.subset
      simp only [List.map_cons, List.map_append, List.mem_cons, List.mem_append, ihi, ihn]
      rw [SortedSet.mem_erase] at herase ⊢
      by_cases hi : i = f.place
      · -- the place of the frame comes first
        subst hi
        simp only [ne_eq, not_true, false_and, true_or, true_iff] at herase ⊢
        exact ⟨new, fun h => herase (hmiddle h)⟩
      · -- any other place comes below the frame, after it, or not at all
        simp only [hi, ne_eq, not_false_eq_true, true_and, false_or] at herase ⊢
        by_cases hm : i ∈ middle
        · simp [hm, herase hm]
        · simp only [hm, not_false_eq_true, and_true, false_and, or_false]
          exact ⟨fun hu => ⟨hu, fun hl => hm (hmiddle hl)⟩, fun hu => hu.1⟩

/-- No place is visited twice. -/
theorem Explores.nodup {unseen left : SortedSet Nat} {frames : List Frame}
    {visits : List Visit} (h : Explores markers body unseen frames visits left) :
    (visits.map Visit.place).Nodup := by
  induction h with
  | done => exact .nil
  | skip _ _ ih => exact ih
  | @enter unseen middle left f rest below after new inner next ihi ihn =>
      rw [List.map_cons, List.map_append, List.nodup_cons, List.nodup_append, List.mem_append]
      refine ⟨?_, ihi, ihn, ?_⟩
      · -- the place of the frame is gone before anything else is visited
        rw [inner.mem_places, next.mem_places]
        intro hlater
        rcases hlater with hbelow | hafter
        · exact (SortedSet.mem_erase.mp hbelow.1).1 rfl
        · exact (SortedSet.mem_erase.mp (inner.subset hafter.1)).1 rfl
      · -- what is visited below the frame is not left for those after it
        intro i hi j hj hij
        subst hij
        exact (inner.mem_places.mp hi).2 (next.mem_places.mp hj).1

/-! ## §4. Ways through unseen places. -/

/-- Control may go from one place to the other in one step, and the other is in
the set. -/
def FlowsIn (body : Body) (unseen : SortedSet Nat) (i j : Nat) : Prop :=
  body.Flows i j ∧ j ∈ unseen

theorem FlowsIn.mono {unseen larger : SortedSet Nat} (h : ∀ i ∈ unseen, i ∈ larger) {i j : Nat}
    (hij : Relation.ReflTransGen (FlowsIn body unseen) i j) :
    Relation.ReflTransGen (FlowsIn body larger) i j :=
  Relation.ReflTransGen.mono (fun _ _ hstep => ⟨hstep.1, h _ hstep.2⟩) _ _ hij

/-- To each place visited there is a way from a frame through unseen places. -/
theorem Explores.way {unseen left : SortedSet Nat} {frames : List Frame}
    {visits : List Visit} (h : Explores markers body unseen frames visits left) {v : Visit}
    (hv : v ∈ visits) :
    ∃ f ∈ frames, f.place ∈ unseen
      ∧ Relation.ReflTransGen (FlowsIn body unseen) f.place v.place := by
  induction h with
  | done => cases hv
  | skip _ _ ih =>
      obtain ⟨f, hf, hway⟩ := ih hv
      exact ⟨f, List.mem_cons_of_mem _ hf, hway⟩
  | @enter unseen middle left f rest below after new inner next ihi ihn =>
      have herase : ∀ i ∈ unseen.erase f.place, i ∈ unseen :=
        fun i hi => (SortedSet.mem_erase.mp hi).2
      rcases List.mem_cons.mp hv with rfl | hv
      · exact ⟨f, List.mem_cons_self, new, .refl⟩
      · rcases List.mem_append.mp hv with hv | hv
        · -- one step leads from the frame to the one on the way
          obtain ⟨g, hg, hgnew, hway⟩ := ihi hv
          obtain ⟨j, hj, rfl⟩ := mem_onward.mp hg
          refine ⟨f, List.mem_cons_self, new, ?_⟩
          exact (FlowsIn.mono herase hway).head ⟨hj, herase _ hgnew⟩
        · obtain ⟨g, hg, hgnew, hway⟩ := ihn hv
          have hmiddle : ∀ i ∈ middle, i ∈ unseen := fun i hi => herase i (inner.subset hi)
          exact ⟨g, List.mem_cons_of_mem _ hg, hmiddle _ hgnew, FlowsIn.mono hmiddle hway⟩

/-- The place of a frame is not left. -/
theorem Explores.frame_not_left {unseen left : SortedSet Nat} {frames : List Frame}
    {visits : List Visit} (h : Explores markers body unseen frames visits left) {f : Frame}
    (hf : f ∈ frames) : f.place ∉ left := by
  induction h with
  | done => cases hf
  | skip seen next ih =>
      rcases List.mem_cons.mp hf with rfl | hf
      · exact fun hleft => seen (next.subset hleft)
      · exact ih hf
  | enter _ inner next _ ihn =>
      rcases List.mem_cons.mp hf with rfl | hf
      · intro hleft
        exact (SortedSet.mem_erase.mp (inner.subset (next.subset hleft))).1 rfl
      · exact ihn hf

/-- A successor of a place visited is not left. -/
theorem Explores.successor_not_left {unseen left : SortedSet Nat} {frames : List Frame}
    {visits : List Visit} (h : Explores markers body unseen frames visits left) {v : Visit}
    (hv : v ∈ visits) {j : Nat} (hj : body.Flows v.place j) : j ∉ left := by
  induction h with
  | done => cases hv
  | skip _ _ ih => exact ih hv
  | enter _ inner next ihi ihn =>
      rcases List.mem_cons.mp hv with rfl | hv
      · intro hleft
        exact inner.frame_not_left (mem_onward.mpr ⟨j, hj, rfl⟩) (next.subset hleft)
      · rcases List.mem_append.mp hv with hv | hv
        · exact fun hleft => ihi hv (next.subset hleft)
        · exact ihn hv

/-- What a way through unseen places leads to from a frame is visited. -/
theorem Explores.mem_places_of_way {unseen left : SortedSet Nat} {frames : List Frame}
    {visits : List Visit} (h : Explores markers body unseen frames visits left) {f : Frame}
    (hf : f ∈ frames) (hnew : f.place ∈ unseen) {i : Nat}
    (hway : Relation.ReflTransGen (FlowsIn body unseen) f.place i) :
    i ∈ visits.map Visit.place := by
  induction hway with
  | refl => exact h.mem_places.mpr ⟨hnew, h.frame_not_left hf⟩
  | tail _ hstep ih =>
      -- a place visited leaves none of its successors
      obtain ⟨v, hv, rfl⟩ := List.mem_map.mp ih
      exact h.mem_places.mpr ⟨hstep.2, h.successor_not_left hv hstep.1⟩

/-- Left are the unseen places to which no way leads from a frame that keeps to
unseen places. -/
theorem Explores.mem_left {unseen left : SortedSet Nat} {frames : List Frame}
    {visits : List Visit} (h : Explores markers body unseen frames visits left) {i : Nat} :
    i ∈ left ↔ i ∈ unseen ∧ ¬ ∃ f ∈ frames, f.place ∈ unseen
      ∧ Relation.ReflTransGen (FlowsIn body unseen) f.place i := by
  constructor
  · intro hi
    refine ⟨h.subset hi, ?_⟩
    intro hreached
    obtain ⟨f, hf, hnew, hway⟩ := hreached
    exact (h.mem_places.mp (h.mem_places_of_way hf hnew hway)).2 hi
  · intro hkept
    obtain ⟨hi, hnone⟩ := hkept
    by_cases hleft : i ∈ left
    · exact hleft
    · obtain ⟨v, hv, rfl⟩ := List.mem_map.mp (h.mem_places.mpr ⟨hi, hleft⟩)
      exact absurd (h.way hv) hnone

/-- Explorations of the same unseen places from frames at the same places leave
the same places, whatever the markers and the order of the frames. -/
theorem Explores.left_eq {markers' : GuardMarkers} {unseen left left' : SortedSet Nat}
    {frames frames' : List Frame} {visits visits' : List Visit}
    (h : Explores markers body unseen frames visits left)
    (h' : Explores markers' body unseen frames' visits' left')
    (hplaces : ∀ i, i ∈ frames.map Frame.place ↔ i ∈ frames'.map Frame.place) :
    left = left' := by
  refine SortedSet.ext fun i => ?_
  have hexists : (∃ f ∈ frames, f.place ∈ unseen
        ∧ Relation.ReflTransGen (FlowsIn body unseen) f.place i)
      ↔ ∃ f ∈ frames', f.place ∈ unseen
        ∧ Relation.ReflTransGen (FlowsIn body unseen) f.place i := by
    constructor
    · intro hreached
      obtain ⟨f, hf, hway⟩ := hreached
      obtain ⟨g, hg, hgf⟩ := List.mem_map.mp ((hplaces _).mp (List.mem_map_of_mem hf))
      exact ⟨g, hg, hgf ▸ hway⟩
    · intro hreached
      obtain ⟨f, hf, hway⟩ := hreached
      obtain ⟨g, hg, hgf⟩ := List.mem_map.mp ((hplaces _).mpr (List.mem_map_of_mem hf))
      exact ⟨g, hg, hgf ▸ hway⟩
  rw [h.mem_left, h'.mem_left, hexists]

end Walk

end ApiGuard
