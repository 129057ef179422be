/-
  ApiGuard.Proofs.Guard.Monotone
  ──────────────────────────────
  With more markers no guard is lost.

  Two explorations of a body, the second with more markers, run in lockstep as
  long as they find the same guards: the frames of the second have at least the
  taint of the first, and tokens where those have some (`Frame.Le`).  Where only
  the second finds a guard they part, since it visits the target first.  Both
  then visit the same places before they meet again, and the second has a token
  at each of them.

      guardAt?_mono               more taint keeps a guard
      keepsAhead_of_guarded       tokens everywhere make up for another order
      Explores.keepsAhead         the lockstep
      recordBody_isGuarded_mono   what it means for the graph
-/
import ApiGuard.Proofs.Guard.Coverage
import Mathlib.Data.List.Forall2

namespace ApiGuard

/-! ## §1. More taint. -/

theorem Text.any_mentions_mono {words words' : List String} (h : words ⊆ words') {text : String}
    (hany : words.any (Text.mentions text) = true) : words'.any (Text.mentions text) = true := by
  rw [List.any_eq_true] at hany ⊢
  obtain ⟨word, hword, hmentions⟩ := hany
  exact ⟨word, h hword, hmentions⟩

/-- What has a marker of the first kind has one of the second. -/
structure GuardMarkers.Le (markers markers' : GuardMarkers) : Prop where
  version : markers.versionFields ⊆ markers'.versionFields
  feature : markers.featureChecks ⊆ markers'.featureChecks

/-- What the first taints the second taints too. -/
structure Taint.Le (taint taint' : Taint) : Prop where
  version : ∀ name ∈ taint.version, name ∈ taint'.version
  feature : ∀ name ∈ taint.feature, name ∈ taint'.feature

/-- What is tainted after an assignment grows with what was before, and with the markers. -/
theorem Taint.reassign_mono {locals locals' : SortedSet String}
    (h : ∀ name ∈ locals, name ∈ locals') {tainted tainted' : Bool}
    (htainted : tainted = true → tainted' = true) {target name : String}
    (hname : name ∈ Taint.reassign locals target tainted) :
    name ∈ Taint.reassign locals' target tainted' := by
  unfold Taint.reassign at hname ⊢
  cases htainted' : tainted' with
  | true =>
      rw [if_pos rfl, SortedSet.mem_insert]
      split at hname
      next => exact (SortedSet.mem_insert.mp hname).imp id (h name)
      next => exact .inr (h name (SortedSet.mem_erase.mp hname).2)
  | false =>
      -- the second does not taint the target, so the first does not either
      have hfalse : tainted = false := by
        cases tainted with
        | false => rfl
        | true => rw [htainted rfl] at htainted'; cases htainted'
      rw [hfalse] at hname
      rw [if_neg (by simp), SortedSet.mem_erase]
      rw [if_neg (by simp), SortedSet.mem_erase] at hname
      exact ⟨hname.1, h name hname.2⟩

section

variable {markers markers' : GuardMarkers} {body : Body}

theorem Taint.Le.after (hmarkers : markers.Le markers') {taint taint' : Taint}
    (h : taint.Le taint') (i : Nat) :
    (taint.after markers body i).Le (taint'.after markers' body i) := by
  unfold Taint.after
  split
  next s _ =>
      unfold Taint.update
      split
      next => exact h
      next =>
          constructor
          · exact fun _ => Taint.reassign_mono h.version (Text.any_mentions_mono hmarkers.version)
          · exact fun _ => Taint.reassign_mono h.feature (Text.any_mentions_mono hmarkers.feature)
  next => exact h

theorem Taint.Le.isGuard {taint taint' : Taint} (h : taint.Le taint') {p : Predicate}
    (hp : taint.isGuard p = true) : taint'.isGuard p = true := by
  unfold Taint.isGuard at hp ⊢
  rw [List.any_eq_true] at hp ⊢
  obtain ⟨name, huses, htainted⟩ := hp
  refine ⟨name, huses, ?_⟩
  rw [Bool.or_eq_true, SortedSet.contains_iff, SortedSet.contains_iff] at htainted ⊢
  exact htainted.imp (h.version name) (h.feature name)

/-- More taint keeps a guard. -/
theorem Walk.guardAt?_mono {taint taint' : Taint} (h : taint.Le taint') {i : Nat}
    {p : Predicate} (hp : Walk.guardAt? body taint i = some p) :
    Walk.guardAt? body taint' i = some p := by
  unfold Walk.guardAt? at hp ⊢
  split at hp
  next hparts =>
      rw [if_pos hparts]
      rw [Option.filter_eq_some_iff] at hp ⊢
      exact ⟨hp.1, h.isGuard hp.2⟩
  next => cases hp

end

/-! ## §2. Corresponding frames. -/

/-- Both frames are at one place; the second has at least the taint of the first,
and a token if the first has one. -/
structure Frame.Le (f f' : Frame) : Prop where
  place : f.place = f'.place
  taint : f.taint.Le f'.taint
  guarded : f.condition ≠ ∅ → f'.condition ≠ ∅

namespace Walk

variable {markers markers' : GuardMarkers} {body : Body}

theorem insert_ne_empty (c : PathCondition) (token : GuardToken) : c.insert token ≠ ∅ := by
  intro heq
  have hmem : token ∈ c.insert token := SortedSet.mem_insert.mpr (.inl rfl)
  rw [heq] at hmem
  exact SortedSet.not_mem_empty _ hmem

/-- If both frames find the same guard, the frames after them correspond. -/
theorem forall₂_onward (hmarkers : markers.Le markers') {f f' : Frame} (h : f.Le f')
    (hguard : guardAt? body (f.taint.after markers body f.place) f.place
      = guardAt? body (f'.taint.after markers' body f'.place) f'.place) :
    List.Forall₂ Frame.Le (onward markers body f) (onward markers' body f') := by
  have hafter : (f.taint.after markers body f.place).Le
      (f'.taint.after markers' body f'.place) := h.place ▸ h.taint.after hmarkers f.place
  unfold onward order
  rw [hguard, h.place, List.forall₂_map_left_iff, List.forall₂_map_right_iff, List.forall₂_same]
  intro j _
  refine ⟨rfl, hafter, ?_⟩
  unfold advance token?
  simp only [hguard]
  rw [h.place]
  split
  next => exact fun _ => insert_ne_empty _ _
  next => exact h.guarded

/-- The frames after a guard all have a token. -/
theorem guarded_of_mem_onward {f g : Frame} {p : Predicate}
    (hp : guardAt? body (f.taint.after markers body f.place) f.place = some p)
    (hg : g ∈ onward markers body f) : g.condition ≠ ∅ := by
  obtain ⟨j, _, rfl⟩ := mem_onward.mp hg
  unfold advance token?
  rw [hp]
  exact insert_ne_empty _ _

/-- No token is lost on the way. -/
theorem Explores.guarded {unseen left : SortedSet Nat} {frames : List Frame}
    {visits : List Visit} (h : Explores markers body unseen frames visits left)
    (hframes : ∀ f ∈ frames, f.condition ≠ ∅) {v : Visit} (hv : v ∈ visits) :
    v.condition ≠ ∅ := by
  induction h with
  | done => cases hv
  | skip _ _ ih => exact ih (fun f hf => hframes f (List.mem_cons_of_mem _ hf)) hv
  | @enter unseen middle left f rest below after _ _ _ ihi ihn =>
      have hf := hframes f List.mem_cons_self
      rcases List.mem_cons.mp hv with rfl | hv
      · exact hf
      · rcases List.mem_append.mp hv with hv | hv
        · -- the frames after it have its tokens, and maybe one more
          refine ihi (fun g hg => ?_) hv
          obtain ⟨j, _, rfl⟩ := mem_onward.mp hg
          unfold advance
          dsimp only
          split
          next => exact insert_ne_empty _ _
          next => exact hf
        · exact ihn (fun g hg => hframes g (List.mem_cons_of_mem _ hg)) hv

end Walk

/-! ## §3. Guarded edges. -/

theorem Conditions.isGuarded_iff {cs : Conditions} :
    cs.isGuarded = true ↔ ∃ c ∈ cs, c ≠ ∅ := by
  unfold Conditions.isGuarded
  rw [List.any_eq_true]
  refine exists_congr fun c => and_congr_right fun _ => ?_
  rw [Bool.not_eq_true', ← Bool.not_eq_true, SortedSet.isEmpty_iff]

namespace CallGraph

variable {g g' : CallGraph} {subtypes : Subtyping} {body : Body}

/-- The edges guarded in the first graph are guarded in the second. -/
def GuardedLe (g g' : CallGraph) : Prop :=
  ∀ a, (g.conditionsAt a).isGuarded = true → (g'.conditionsAt a).isGuarded = true

/-- Where the first graph has a token the second has one. -/
theorem GuardedLe.exists_guarded (hle : GuardedLe g g') {a : Arc} {x : PathCondition}
    (hx : x ∈ g.conditionsAt a) (hne : x ≠ ∅) : ∃ y ∈ g'.conditionsAt a, y ≠ ∅ := by
  have hguarded : (g.conditionsAt a).isGuarded = true := Conditions.isGuarded_iff.mpr ⟨x, hx, hne⟩
  exact Conditions.isGuarded_iff.mp (hle a hguarded)

/-- Recording at a place keeps the second graph ahead if it has a token there
whenever the first has one. -/
theorem GuardedLe.recordAt (hle : GuardedLe g g') (h : g.WellFormed) (h' : g'.WellFormed)
    {c c' : PathCondition} (hc : c ≠ ∅ → c' ≠ ∅) (i : Nat) :
    GuardedLe (g.recordAt subtypes body i c) (g'.recordAt subtypes body i c') := by
  intro a ha
  rw [Conditions.isGuarded_iff] at ha ⊢
  obtain ⟨x, hx, hne⟩ := ha
  rcases h.mem_conditionsAt_recordAt.mp hx with
    hx | ⟨hsource, ⟨hrun, rfl⟩ | ⟨call, hcall, hoverridable, htarget, hx⟩⟩
  · obtain ⟨y, hy, hyne⟩ := hle.exists_guarded hx hne
    exact ⟨y, h'.mem_conditionsAt_recordAt.mpr (.inl hy), hyne⟩
  · exact ⟨c', h'.mem_conditionsAt_recordAt.mpr (.inr ⟨hsource, .inl ⟨hrun, rfl⟩⟩), hc hne⟩
  · -- the token comes from the edge of the declared method, which has one too
    obtain ⟨y, hy, hyne⟩ := hle.exists_guarded hx hne
    exact ⟨y, h'.mem_conditionsAt_recordAt.mpr
      (.inr ⟨hsource, .inr ⟨call, hcall, hoverridable, htarget, hy⟩⟩), hyne⟩

/-- To record the first visits in one graph and the second ones in another keeps
the second graph ahead. -/
def KeepsAhead (subtypes : Subtyping) (body : Body) (visits visits' : List Visit) : Prop :=
  ∀ g g' : CallGraph, g.WellFormed → g'.WellFormed → GuardedLe g g' →
    GuardedLe (g.recordVisits subtypes body visits) (g'.recordVisits subtypes body visits')

theorem KeepsAhead.append {l l' m m' : List Visit} (hl : KeepsAhead subtypes body l l')
    (hm : KeepsAhead subtypes body m m') : KeepsAhead subtypes body (l ++ m) (l' ++ m') := by
  intro g g' h h' hle
  rw [recordVisits_append, recordVisits_append]
  exact hm _ _ (h.recordVisits l) (h'.recordVisits l') (hl g g' h h' hle)

theorem KeepsAhead.cons {l l' : List Visit} {c c' : PathCondition} (hc : c ≠ ∅ → c' ≠ ∅)
    (hl : KeepsAhead subtypes body l l') (i : Nat) :
    KeepsAhead subtypes body (⟨i, c⟩ :: l) (⟨i, c'⟩ :: l') := by
  intro g g' h h' hle
  show GuardedLe ((g.recordAt subtypes body i c).recordVisits subtypes body l)
    ((g'.recordAt subtypes body i c').recordVisits subtypes body l')
  exact hl _ _ (h.recordAt _ _) (h'.recordAt _ _) (hle.recordAt h h' hc i)

/-- Visits of the same places and more keep the second graph ahead if each of
them has a token, whatever the first ones have and in whatever order they come. -/
theorem keepsAhead_of_guarded {visits visits' : List Visit}
    (hplaces : ∀ i ∈ visits.map Visit.place, i ∈ visits'.map Visit.place)
    (htoken : ∀ v ∈ visits', v.condition ≠ ∅) :
    KeepsAhead subtypes body visits visits' := by
  intro g g' h h' hle a ha
  rw [Conditions.isGuarded_iff] at ha ⊢
  obtain ⟨x, hx, hne⟩ := ha
  rcases of_mem_conditionsAt visits h hx with hx | ⟨hsource, ⟨v, hv, hrun⟩, _⟩
  · obtain ⟨y, hy, hyne⟩ := hle.exists_guarded hx hne
    exact ⟨y, mem_conditionsAt_of_mem visits' h' hy, hyne⟩
  · -- the same call is visited with a token in the second graph
    obtain ⟨v', hv', hplace⟩ := List.mem_map.mp (hplaces _ (List.mem_map_of_mem hv))
    rw [← hplace] at hrun
    have hmem := mem_conditionsAt_of_visit h' hv' hrun
    rw [← hsource] at hmem
    exact ⟨v'.condition, hmem, htoken v' hv'⟩

end CallGraph

/-! ## §4. The lockstep. -/

namespace Walk

variable {markers markers' : GuardMarkers} {body : Body} {subtypes : Subtyping}

/-- The frames after two at one place are at the same places. -/
theorem mem_places_onward {f f' : Frame} (hplace : f.place = f'.place) (i : Nat) :
    i ∈ (onward markers body f).map Frame.place
      ↔ i ∈ (onward markers' body f').map Frame.place := by
  have hsuccessors : ∀ (m : GuardMarkers) (g : Frame),
      i ∈ (onward m body g).map Frame.place ↔ i ∈ body.successors g.place := by
    intro m g
    rw [List.mem_map]
    constructor
    · intro hplace
      obtain ⟨next, hnext, rfl⟩ := hplace
      obtain ⟨j, hj, rfl⟩ := mem_onward.mp hnext
      exact hj
    · intro hi
      exact ⟨advance m body g i, mem_onward.mpr ⟨i, hi, rfl⟩, rfl⟩
  rw [hsuccessors markers f, hsuccessors markers' f', hplace]

/-- If the guards of corresponding frames differ, the second frame has one. -/
theorem exists_new_guard (hmarkers : markers.Le markers') {f f' : Frame} (h : f.Le f')
    (hguard : guardAt? body (f.taint.after markers body f.place) f.place
      ≠ guardAt? body (f'.taint.after markers' body f'.place) f'.place) :
    ∃ p, guardAt? body (f'.taint.after markers' body f'.place) f'.place = some p := by
  have hafter : (f.taint.after markers body f.place).Le
      (f'.taint.after markers' body f.place) := h.taint.after hmarkers f.place
  rw [← h.place] at hguard ⊢
  cases hnew : guardAt? body (f'.taint.after markers' body f.place) f.place with
  | some p => exact ⟨p, rfl⟩
  | none =>
      exfalso
      -- a guard of the first frame would be one of the second
      cases hold : guardAt? body (f.taint.after markers body f.place) f.place with
      | none => exact hguard (hold.trans hnew.symm)
      | some p =>
          have hkept := guardAt?_mono hafter hold
          rw [hnew] at hkept
          cases hkept

/-- If only the second exploration finds a guard, both still visit the same places
below it, and the second has a token at each. -/
theorem Explores.keepsAhead_of_new_guard {unseen middle middle' : SortedSet Nat}
    {f f' : Frame} {below below' : List Visit} {p : Predicate}
    (inner : Explores markers body unseen (onward markers body f) below middle)
    (inner' : Explores markers' body unseen (onward markers' body f') below' middle')
    (hplace : f.place = f'.place)
    (hguard : guardAt? body (f'.taint.after markers' body f'.place) f'.place = some p) :
    middle = middle' ∧ CallGraph.KeepsAhead subtypes body below below' := by
  -- what is left does not depend on the order
  have hmiddle : middle = middle' := inner.left_eq inner' (mem_places_onward hplace)
  subst hmiddle
  have hplaces : ∀ i ∈ below.map Visit.place, i ∈ below'.map Visit.place :=
    fun i hi => inner'.mem_places.mpr (inner.mem_places.mp hi)
  have htoken : ∀ v ∈ below', v.condition ≠ ∅ :=
    fun v hv => inner'.guarded (fun _ => guarded_of_mem_onward hguard) hv
  exact ⟨rfl, CallGraph.keepsAhead_of_guarded hplaces htoken⟩

/-- From corresponding frames both explorations leave the same places, and
recording their visits keeps the second graph ahead. -/
theorem Explores.keepsAhead (hmarkers : markers.Le markers') {unseen left : SortedSet Nat}
    {frames : List Frame} {visits : List Visit}
    (h : Explores markers body unseen frames visits left) :
    ∀ {left' : SortedSet Nat} {frames' : List Frame} {visits' : List Visit},
      Explores markers' body unseen frames' visits' left' →
      List.Forall₂ Frame.Le frames frames' →
      left = left' ∧ CallGraph.KeepsAhead subtypes body visits visits' := by
  induction h with
  | done =>
      intro left' frames' visits' h' hframes
      cases hframes
      cases h'
      exact ⟨rfl, fun _ _ _ _ hle => hle⟩
  | skip seen next ih =>
      intro left' frames' visits' h' hframes
      cases hframes with
      | cons hf hrest =>
          cases h' with
          | skip _ next' => exact ih next' hrest
          | enter new' _ _ => exact absurd (hf.place ▸ new') seen
  | @enter unseen middle left f rest below after new inner next ihi ihn =>
      intro left' frames' visits' h' hframes
      cases hframes with
      | @cons _ f' _ rest' hf hrest =>
          cases h' with
          | skip seen' _ => exact absurd (hf.place ▸ new) seen'
          | @enter _ middle' _ _ _ below' after' new' inner' next' =>
              rw [← hf.place] at inner' ⊢
              have hbelow : middle = middle' ∧ CallGraph.KeepsAhead subtypes body below below' := by
                by_cases hguard : guardAt? body (f.taint.after markers body f.place) f.place
                    = guardAt? body (f'.taint.after markers' body f'.place) f'.place
                · exact ihi inner' (forall₂_onward hmarkers hf hguard)
                · -- here the orders differ, so the frames below do not correspond
                  obtain ⟨p, hp⟩ := exists_new_guard hmarkers hf hguard
                  exact inner.keepsAhead_of_new_guard inner' hf.place hp
              obtain ⟨rfl, hbelow⟩ := hbelow
              obtain ⟨rfl, hrest⟩ := ihn next' hrest
              exact ⟨rfl, (hbelow.append hrest).cons hf.guarded f.place⟩

end Walk

/-! ## §5. More markers. -/

namespace CallGraph

variable {g : CallGraph} {subtypes : Subtyping} {markers markers' : GuardMarkers} {body : Body}

/-- To record a body with more markers keeps the guarded edges guarded. -/
theorem GuardedLe.recordBody (h : g.WellFormed) (hmarkers : markers.Le markers') :
    GuardedLe (g.recordBody subtypes markers body) (g.recordBody subtypes markers' body) := by
  obtain ⟨visits, left, hrun⟩ :=
    Walk.exists_explores markers body (Walk.places body) (body.entries.map Frame.entry)
  obtain ⟨visits', left', hrun'⟩ :=
    Walk.exists_explores markers' body (Walk.places body) (body.entries.map Frame.entry)
  have hframes : List.Forall₂ Frame.Le (body.entries.map Frame.entry)
      (body.entries.map Frame.entry) := by
    rw [List.forall₂_same]
    intro f _
    exact ⟨rfl, ⟨fun _ hname => hname, fun _ hname => hname⟩, fun hne => hne⟩
  rw [hrun.recordBody_eq g subtypes, hrun'.recordBody_eq g subtypes]
  exact (hrun.keepsAhead hmarkers hrun' hframes).2 g g h h (fun _ ha => ha)

theorem WellFormed.recordBody (h : g.WellFormed) :
    (g.recordBody subtypes markers body).WellFormed := by
  rw [recordBody_eq_recordVisits]
  exact h.recordVisits _

/-- With more markers a body stores the same edges, and all edges guarded before
are guarded still. -/
theorem recordBody_isGuarded_mono (hg : g.Reachable)
    (hversion : markers.versionFields ⊆ markers'.versionFields)
    (hfeature : markers.featureChecks ⊆ markers'.featureChecks) :
    (∀ a : Arc, (g.recordBody subtypes markers body).IsStored a
        ↔ (g.recordBody subtypes markers' body).IsStored a)
    ∧ (∀ a : Arc, ((g.recordBody subtypes markers body).conditionsAt a).isGuarded = true →
        ((g.recordBody subtypes markers' body).conditionsAt a).isGuarded = true)
    ∧ (∀ e ∈ (g.recordBody subtypes markers body).storedEdges,
        e.conditions.isGuarded = true →
        ∃ e' ∈ (g.recordBody subtypes markers' body).storedEdges,
          e'.toArc = e.toArc ∧ e'.conditions.isGuarded = true) := by
  have h := hg.wellFormed
  have hstored : ∀ a : Arc, (g.recordBody subtypes markers body).IsStored a
      ↔ (g.recordBody subtypes markers' body).IsStored a := by
    intro a
    rw [h.isStored_recordBody, h.isStored_recordBody]
  have hguarded : GuardedLe (g.recordBody subtypes markers body)
      (g.recordBody subtypes markers' body) :=
    GuardedLe.recordBody h ⟨hversion, hfeature⟩
  refine ⟨hstored, hguarded, ?_⟩
  intro e he hcs
  rw [← h.recordBody.conditionsAt_toArc he] at hcs
  obtain ⟨e', he', harc⟩ := (hstored e.toArc).mp ⟨e, he, rfl⟩
  refine ⟨e', he', harc, ?_⟩
  rw [← h.recordBody.conditionsAt_toArc he', harc]
  exact hguarded _ hcs

/-- Marking the number of the release guards the call of the button. -/
theorem recordBody_isGuarded_releaseSwitch :
    Reachable ∅
    ∧ ([versionNumberField] : List String) ⊆ ({} : GuardMarkers).versionFields
    ∧ ([] : List String) ⊆ ({} : GuardMarkers).featureChecks
    ∧ (((∅ : CallGraph).recordBody listenerSubtypes ⟨[versionNumberField], []⟩
        releaseSwitch).conditionsAt
          ⟨releaseSwitch.signature, "<app.Button: void on()>"⟩).isGuarded = true
    ∧ (((∅ : CallGraph).recordBody listenerSubtypes {} releaseSwitch).conditionsAt
          ⟨releaseSwitch.signature, "<app.Button: void on()>"⟩).isGuarded = true := by
  have hversion : ([versionNumberField] : List String) ⊆ ({} : GuardMarkers).versionFields := by
    decide
  have hfeature : ([] : List String) ⊆ ({} : GuardMarkers).featureChecks := List.nil_subset _
  have hvisits : Walk.visits ⟨[versionNumberField], []⟩ releaseSwitch
      = [⟨0, ∅⟩, ⟨1, ∅⟩, ⟨4, .ofList [.holds "sdk < 26"]⟩,
        ⟨2, .ofList [.negated "sdk < 26"]⟩] := by
    cbv
  have hguarded : (((∅ : CallGraph).recordBody listenerSubtypes ⟨[versionNumberField], []⟩
      releaseSwitch).conditionsAt
        ⟨releaseSwitch.signature, "<app.Button: void on()>"⟩).isGuarded = true := by
    rw [recordBody_eq_recordVisits, hvisits]
    decide +kernel
  exact ⟨reachable_empty, hversion, hfeature, hguarded,
    (recordBody_isGuarded_mono reachable_empty hversion hfeature).2.1 _ hguarded⟩

end CallGraph

end ApiGuard
