/-
  ApiGuard.Proofs.Guard.Paths
  ───────────────────────────
  Every condition that is recorded belongs to a way through the body.

  A way starts at an entry and goes from each place to a successor (`IsWay`).
  Its taint is that of its places from the first on (`Taint.along`), and it gets a
  token at each step at which control parts and the condition reads a tainted
  local (`TokenAt`).  Each frame of an exploration has such a way (`HasWay`), and
  going on from a frame prolongs it by one step:

      HasWay.advance                   the way of the next frame
      Explores.hasWay                  every visit has a way
      exists_way_of_mem_conditionsAt   so has every condition recorded for a body
-/
import ApiGuard.Proofs.Guard.Recording

namespace ApiGuard

/-! ## §1. Ways. -/

/-- A way of control: it starts at an entry, and each place is followed by one of
its successors. -/
structure Body.IsWay (body : Body) (way : List Nat) : Prop where
  entry : ∃ i, way[0]? = some i ∧ i ∈ body.entries
  flows : ∀ k i j, way[k]? = some i → way[k + 1]? = some j → j ∈ body.successors i

/-- The taint after the statements at the given places, one after the other. -/
def Taint.along (markers : GuardMarkers) (body : Body) (places : List Nat) : Taint :=
  places.foldl (fun taint i => taint.after markers body i) ∅

namespace Walk

/-- The way gets the token at the step after its place number `k`. -/
def TokenAt (markers : GuardMarkers) (body : Body) (way : List Nat) (k : Nat)
    (token : GuardToken) : Prop :=
  ∃ i j, way[k]? = some i ∧ way[k + 1]? = some j
    ∧ token? body (Taint.along markers body (way.take (k + 1))) i j = some token

/-- The condition is the set of the tokens of the way. -/
def IsConditionOf (markers : GuardMarkers) (body : Body) (c : PathCondition)
    (way : List Nat) : Prop :=
  ∀ token, token ∈ c ↔ ∃ k, TokenAt markers body way k token

variable {markers : GuardMarkers} {body : Body}

/-! ## §2. One more step. -/

/-- The steps of a prolonged way are the old ones and the new one. -/
theorem getElem?_concat_step {way : List Nat} {j k a b : Nat} :
    ((way ++ [j])[k]? = some a ∧ (way ++ [j])[k + 1]? = some b)
      ↔ (way[k]? = some a ∧ way[k + 1]? = some b)
        ∨ (k + 1 = way.length ∧ way[k]? = some a ∧ j = b) := by
  -- the step is an old one, the new one, or beyond the end
  rcases Nat.lt_trichotomy (k + 1) way.length with hk | hk | hk
  · rw [List.getElem?_append_left (by omega), List.getElem?_append_left hk]
    simp [Nat.ne_of_lt hk]
  · rw [List.getElem?_append_left (by omega), hk, List.getElem?_concat_length]
    simp
  · have hnew : (way ++ [j])[k + 1]? = none := List.getElem?_eq_none (by simp; omega)
    have hold : way[k + 1]? = none := List.getElem?_eq_none (by omega)
    rw [hnew, hold]
    simp [Nat.ne_of_gt hk]

/-- Before its new step a prolonged way has the tokens it had. -/
theorem tokenAt_concat {way : List Nat} {i j k : Nat} {token : GuardToken}
    (hlast : way.getLast? = some i) :
    TokenAt markers body (way ++ [j]) k token
      ↔ TokenAt markers body way k token
        ∨ (k + 1 = way.length
          ∧ token? body (Taint.along markers body way) i j = some token) := by
  have htake : k + 1 ≤ way.length → (way ++ [j]).take (k + 1) = way.take (k + 1) :=
    fun hk => List.take_append_of_le_length hk
  rw [List.getLast?_eq_getElem?] at hlast
  unfold TokenAt
  constructor
  · intro hat
    obtain ⟨a, b, ha, hb, htoken⟩ := hat
    rcases getElem?_concat_step.mp ⟨ha, hb⟩ with ⟨ha, hb⟩ | ⟨hk, ha, rfl⟩
    · have hlt : k + 1 < way.length := (List.getElem?_eq_some_iff.mp hb).1
      rw [htake (Nat.le_of_lt hlt)] at htoken
      exact .inl ⟨a, b, ha, hb, htoken⟩
    · rw [htake (Nat.le_of_eq hk), hk, List.take_length] at htoken
      rw [← hk, Nat.add_sub_cancel, ha] at hlast
      cases hlast
      exact .inr ⟨hk, htoken⟩
  · intro hat
    rcases hat with ⟨a, b, ha, hb, htoken⟩ | ⟨hk, htoken⟩
    · have hlt : k + 1 < way.length := (List.getElem?_eq_some_iff.mp hb).1
      obtain ⟨ha', hb'⟩ := getElem?_concat_step.mpr (.inl ⟨ha, hb⟩)
      exact ⟨a, b, ha', hb', by rw [htake (Nat.le_of_lt hlt)]; exact htoken⟩
    · rw [← hk, Nat.add_sub_cancel] at hlast
      obtain ⟨ha', hb'⟩ := getElem?_concat_step.mpr (.inr ⟨hk, hlast, rfl⟩)
      refine ⟨i, j, ha', hb', ?_⟩
      rw [htake (Nat.le_of_eq hk), hk, List.take_length]
      exact htoken

theorem isWay_concat {way : List Nat} {i j : Nat} (h : body.IsWay way)
    (hlast : way.getLast? = some i) (hj : j ∈ body.successors i) :
    body.IsWay (way ++ [j]) := by
  obtain ⟨entry, hentry, hmem⟩ := h.entry
  have hpos : 0 < way.length := (List.getElem?_eq_some_iff.mp hentry).1
  rw [List.getLast?_eq_getElem?] at hlast
  refine ⟨⟨entry, by rw [List.getElem?_append_left hpos]; exact hentry, hmem⟩, ?_⟩
  intro k a b ha hb
  rcases getElem?_concat_step.mp ⟨ha, hb⟩ with ⟨ha, hb⟩ | ⟨hk, ha, rfl⟩
  · exact h.flows k a b ha hb
  · rw [← hk, Nat.add_sub_cancel, ha] at hlast
    cases hlast
    exact hj

/-! ## §3. The way of a frame. -/

/-- The way leads to the place of the frame, and the frame carries its taint
before that place and its tokens. -/
structure HasWay (markers : GuardMarkers) (body : Body) (f : Frame) (before : List Nat) :
    Prop where
  isWay : body.IsWay (before ++ [f.place])
  taint : f.taint = Taint.along markers body before
  condition : IsConditionOf markers body f.condition (before ++ [f.place])

/-- The way of a frame at an entry has no place before. -/
theorem hasWay_entry {i : Nat} (h : i ∈ body.entries) :
    HasWay markers body (Frame.entry i) [] where
  isWay := ⟨⟨i, rfl, h⟩, fun k a b _ hb => by simp at hb⟩
  taint := rfl
  condition token := by
    constructor
    · intro hmem
      exact absurd hmem (SortedSet.not_mem_empty _)
    · intro hat
      obtain ⟨k, a, b, _, hb, _⟩ := hat
      simp at hb

/-- The next frame has the tokens of the frame and that of the step. -/
theorem mem_condition_advance {f : Frame} {j : Nat} {token : GuardToken} :
    token ∈ (advance markers body f j).condition
      ↔ token ∈ f.condition
        ∨ token? body (f.taint.after markers body f.place) f.place j = some token := by
  unfold advance
  dsimp only
  split
  next new hnew =>
      rw [SortedSet.mem_insert, hnew, Option.some.injEq, or_comm, eq_comm]
  next hnone =>
      rw [hnone]
      simp

/-- To go on from a frame prolongs its way by the place of the frame. -/
theorem HasWay.advance {f : Frame} {before : List Nat} (h : HasWay markers body f before)
    {j : Nat} (hj : j ∈ body.successors f.place) :
    HasWay markers body (advance markers body f j) (before ++ [f.place]) := by
  have hlast : (before ++ [f.place]).getLast? = some f.place := by simp
  -- the frame carries the taint before its place, the next one that after it
  have htaint : f.taint.after markers body f.place
      = Taint.along markers body (before ++ [f.place]) := by
    unfold Taint.along
    rw [List.foldl_append, h.taint]
    rfl
  refine ⟨isWay_concat h.isWay hlast hj, htaint, ?_⟩
  intro token
  show token ∈ (Walk.advance markers body f j).condition
    ↔ ∃ k, TokenAt markers body (before ++ [f.place] ++ [j]) k token
  rw [mem_condition_advance, h.condition token, htaint]
  simp only [tokenAt_concat hlast, exists_or]
  -- the last step has a number, whatever its token
  have hstep : ∀ P : Prop, (∃ k, k + 1 = (before ++ [f.place]).length ∧ P) ↔ P := by
    intro P
    constructor
    · intro hk
      obtain ⟨_, _, hP⟩ := hk
      exact hP
    · intro hP
      exact ⟨before.length, by simp, hP⟩
  rw [hstep]

/-! ## §4. The ways of visits. -/

/-- If every frame has a way, so has every visit. -/
theorem Explores.hasWay {unseen left : SortedSet Nat} {frames : List Frame}
    {visits : List Visit} (h : Explores markers body unseen frames visits left)
    (hframes : ∀ f ∈ frames, ∃ before, HasWay markers body f before) {v : Visit}
    (hv : v ∈ visits) :
    ∃ before, body.IsWay (before ++ [v.place])
      ∧ IsConditionOf markers body v.condition (before ++ [v.place]) := by
  induction h with
  | done => cases hv
  | skip _ _ ih => exact ih (fun f hf => hframes f (List.mem_cons_of_mem _ hf)) hv
  | @enter unseen middle left f rest below after _ _ _ ihi ihn =>
      obtain ⟨before, hway⟩ := hframes f List.mem_cons_self
      rcases List.mem_cons.mp hv with rfl | hv
      · exact ⟨before, hway.isWay, hway.condition⟩
      · rcases List.mem_append.mp hv with hv | hv
        · refine ihi (fun g hg => ?_) hv
          obtain ⟨j, hj, rfl⟩ := mem_onward.mp hg
          exact ⟨_, hway.advance hj⟩
        · exact ihn (fun g hg => hframes g (List.mem_cons_of_mem _ hg)) hv

end Walk

namespace CallGraph

variable {g : CallGraph} {subtypes : Subtyping} {markers : GuardMarkers} {body : Body}

/-- If no edge from a method carries a condition, every condition that recording
its body adds to an edge is the set of the tokens of a way from an entry to a
call. -/
theorem exists_way_of_mem_conditionsAt (hg : g.Reachable)
    (hnone : ∀ target, g.conditionsAt ⟨body.signature, target⟩ = ∅) {a : Arc}
    {c : PathCondition} (hc : c ∈ (g.recordBody subtypes markers body).conditionsAt a)
    (hnew : c ∉ g.conditionsAt a) :
    ∃ way i call, body.IsWay way ∧ way.getLast? = some i ∧ body.call? i = some call
      ∧ ∀ token, token ∈ c ↔ ∃ k, Walk.TokenAt markers body way k token := by
  obtain ⟨visits, left, h⟩ :=
    Walk.exists_explores markers body (Walk.places body) (body.entries.map Frame.entry)
  rw [h.recordBody_eq] at hc
  rcases of_mem_conditionsAt visits hg.wellFormed hc with
    hold | ⟨_, _, ⟨target, hold⟩ | ⟨v, hv, rfl, call, hcall⟩⟩
  · exact absurd hold hnew
  · -- no override gets a condition from earlier bodies
    rw [hnone] at hold
    exact absurd hold (SortedSet.not_mem_empty _)
  · have hframes : ∀ f ∈ body.entries.map Frame.entry,
        ∃ before, Walk.HasWay markers body f before := by
      intro f hf
      obtain ⟨entry, hentry, rfl⟩ := List.mem_map.mp hf
      exact ⟨[], Walk.hasWay_entry hentry⟩
    obtain ⟨before, hway, hcondition⟩ := h.hasWay hframes hv
    exact ⟨before ++ [v.place], v.place, call, hway, by simp, hcall, hcondition⟩

/-- The subclass of the listener is only called where the release is not below
26. -/
theorem exists_way_to_button :
    Reachable ∅
    ∧ (∀ target, (∅ : CallGraph).conditionsAt ⟨releaseSwitch.signature, target⟩ = ∅)
    ∧ .ofList [.negated "sdk < 26"] ∈ ((∅ : CallGraph).recordBody listenerSubtypes {}
        releaseSwitch).conditionsAt ⟨releaseSwitch.signature, "<app.Button: void on()>"⟩
    ∧ ∃ way i call, releaseSwitch.IsWay way ∧ way.getLast? = some i
        ∧ releaseSwitch.call? i = some call
        ∧ ∀ token, token ∈ (.ofList [.negated "sdk < 26"] : PathCondition)
            ↔ ∃ k, Walk.TokenAt {} releaseSwitch way k token := by
  have hnone : ∀ target,
      (∅ : CallGraph).conditionsAt ⟨releaseSwitch.signature, target⟩ = ∅ := fun _ => rfl
  have hmem : .ofList [.negated "sdk < 26"] ∈ ((∅ : CallGraph).recordBody listenerSubtypes {}
      releaseSwitch).conditionsAt ⟨releaseSwitch.signature, "<app.Button: void on()>"⟩ := by
    rw [recordBody_eq_recordVisits, visits_releaseSwitch]
    decide +kernel
  exact ⟨reachable_empty, hnone, hmem, exists_way_of_mem_conditionsAt reachable_empty hnone hmem
    (SortedSet.not_mem_empty _)⟩

end CallGraph

end ApiGuard
