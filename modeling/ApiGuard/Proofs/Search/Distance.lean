/-
  ApiGuard.Proofs.Search.Distance
  ───────────────────────────────
  A breadth-first search finds what steps lead to, each place once and the nearest
  ones first.

  A place is reached in `n` steps if `n` steps lead to it from a starting place
  (`ReachedIn`).  The queue of a search always consists of places at one distance
  followed by places at the next, and no place beyond it is nearer (`Frontier`):

      mem_search       found are the places that are reached
      nodup_search     none is found twice
      pairwise_search  none is found before one that is nearer
-/
import ApiGuard.Search
import Mathlib.Data.List.Perm.Subperm

namespace ApiGuard.Search

universe u

variable {α : Type u} [DecidableEq α] {step : α → List α} {graph starts : List α}

/-! ## §1. Discovery. -/

/-- What is discovered and what is left make up what was unseen. -/
theorem perm_discover (places : List α) :
    ∀ unseen : List α,
      ((discover unseen places).1 ++ (discover unseen places).2).Perm unseen := by
  induction places with
  | nil => intro unseen; rfl
  | cons a rest ih =>
      intro unseen
      rw [discover]
      split
      next ha => exact ((ih (unseen.erase a)).cons a).trans (List.perm_cons_erase ha).symm
      next => exact ih unseen

/-- Discovered are those of the places that are still unseen. -/
theorem mem_discover {b : α} (places : List α) :
    ∀ {unseen : List α}, b ∈ (discover unseen places).1 ↔ b ∈ unseen ∧ b ∈ places := by
  induction places with
  | nil => intro unseen; simp [discover]
  | cons a rest ih =>
      intro unseen
      rw [discover]
      split
      next ha =>
          rw [List.mem_cons, List.mem_cons, ih]
          by_cases hb : b = a
          · simp [hb, ha]
          · simp [hb, List.mem_erase_of_ne hb]
      next ha =>
          rw [ih, List.mem_cons]
          constructor
          · exact fun h => ⟨h.1, .inr h.2⟩
          · exact fun h => ⟨h.1, h.2.resolve_left fun heq => ha (heq ▸ h.1)⟩

theorem mem_of_mem_left {b : α} {unseen places : List α}
    (hb : b ∈ (discover unseen places).2) : b ∈ unseen :=
  (perm_discover places unseen).mem_iff.mp (List.mem_append_right _ hb)

theorem mem_discover_or_left {b : α} {unseen : List α} (places : List α) (hb : b ∈ unseen) :
    b ∈ (discover unseen places).1 ∨ b ∈ (discover unseen places).2 :=
  List.mem_append.mp ((perm_discover places unseen).mem_iff.mpr hb)

theorem nodup_discover {unseen : List α} (h : unseen.Nodup) (places : List α) :
    ((discover unseen places).1 ++ (discover unseen places).2).Nodup :=
  (perm_discover places unseen).nodup_iff.mpr h

/-! ## §2. Places found. -/

/-- Found are places of the queue and unseen ones, none more often than there. -/
theorem breadthFirst_subperm (step : α → List α) (unseen queue : List α) :
    (breadthFirst step unseen queue).Subperm (queue ++ unseen) := by
  induction unseen, queue using breadthFirst.induct step with
  | case1 unseen => rw [breadthFirst]; exact List.nil_subperm
  | case2 unseen a queue ih =>
      rw [breadthFirst, List.cons_append, List.subperm_cons]
      -- what is discovered moves from the unseen places to the queue
      refine ih.trans (List.Perm.subperm ?_)
      rw [List.append_assoc]
      exact (perm_discover (step a) unseen).append_left queue

theorem mem_breadthFirst_of_mem {unseen queue : List α} {b : α} (hb : b ∈ queue) :
    b ∈ breadthFirst step unseen queue := by
  induction unseen, queue using breadthFirst.induct step with
  | case1 unseen => cases hb
  | case2 unseen a queue ih =>
      rw [breadthFirst]
      rcases List.mem_cons.mp hb with rfl | hb
      · exact List.mem_cons_self
      · exact List.mem_cons_of_mem _ (ih (List.mem_append_left _ hb))

/-- A step from a place that is found leads to no place that stays unseen. -/
theorem mem_breadthFirst_of_step {unseen queue : List α} {a b : α}
    (ha : a ∈ breadthFirst step unseen queue) (hstep : b ∈ step a) (hb : b ∈ unseen) :
    b ∈ breadthFirst step unseen queue := by
  induction unseen, queue using breadthFirst.induct step with
  | case1 unseen => rw [breadthFirst] at ha; cases ha
  | case2 unseen c queue ih =>
      rw [breadthFirst] at ha ⊢
      refine List.mem_cons_of_mem _ ?_
      rcases List.mem_cons.mp ha with rfl | ha
      · -- it comes into the queue now
        have hnew := (mem_discover (step a)).mpr ⟨hb, hstep⟩
        exact mem_breadthFirst_of_mem (List.mem_append_right _ hnew)
      · rcases mem_discover_or_left (step c) hb with hnew | hleft
        · exact mem_breadthFirst_of_mem (List.mem_append_right _ hnew)
        · exact ih ha hleft

/-- So many steps lead to the place from a starting place. -/
def ReachedIn (step : α → List α) (starts : List α) : Nat → α → Prop
  | 0, a => a ∈ starts
  | n + 1, b => ∃ a, ReachedIn step starts n a ∧ b ∈ step a

/-- What is found from a queue of reached places is reached. -/
theorem reachedIn_of_mem_breadthFirst {unseen queue : List α}
    (hqueue : ∀ a ∈ queue, ∃ n, ReachedIn step starts n a) {b : α}
    (hb : b ∈ breadthFirst step unseen queue) : ∃ n, ReachedIn step starts n b := by
  induction unseen, queue using breadthFirst.induct step with
  | case1 unseen => rw [breadthFirst] at hb; cases hb
  | case2 unseen a queue ih =>
      rw [breadthFirst] at hb
      rcases List.mem_cons.mp hb with rfl | hb
      · exact hqueue b List.mem_cons_self
      · refine ih (fun c hc => ?_) hb
        rcases List.mem_append.mp hc with hc | hc
        · exact hqueue c (List.mem_cons_of_mem _ hc)
        · -- a discovered place is one step from the first
          obtain ⟨n, ha⟩ := hqueue a List.mem_cons_self
          exact ⟨n + 1, a, ha, ((mem_discover (step a)).mp hc).2⟩

theorem mem_graph_of_mem_search {a : α} (ha : a ∈ search step graph starts) : a ∈ graph := by
  have hmem := (breadthFirst_subperm step _ _).subset ha
  exact (perm_discover starts graph).mem_iff.mp hmem

theorem nodup_search (hgraph : graph.Nodup) : (search step graph starts).Nodup := by
  obtain ⟨l, hperm, hsub⟩ :=
    breadthFirst_subperm step (discover graph starts).2 (discover graph starts).1
  exact hperm.nodup_iff.mp (hsub.nodup (nodup_discover hgraph starts))

/-- Found are the places that are reached, if the graph holds all of them. -/
theorem mem_search (hstarts : ∀ a ∈ starts, a ∈ graph)
    (hclosed : ∀ a ∈ graph, ∀ b ∈ step a, b ∈ graph) {a : α} :
    a ∈ search step graph starts ↔ ∃ n, ReachedIn step starts n a := by
  constructor
  · refine reachedIn_of_mem_breadthFirst fun b hb => ?_
    exact ⟨0, ((mem_discover starts).mp hb).2⟩
  · intro hreached
    obtain ⟨n, hn⟩ := hreached
    induction n generalizing a with
    | zero => exact mem_breadthFirst_of_mem ((mem_discover starts).mpr ⟨hstarts a hn, hn⟩)
    | succ n ih =>
        obtain ⟨b, hb, hstep⟩ := hn
        have hfound := ih hb
        -- at first every place of the graph is unseen or in the queue
        have ha := hclosed b (mem_graph_of_mem_search hfound) a hstep
        rcases mem_discover_or_left starts ha with hqueue | hunseen
        · exact mem_breadthFirst_of_mem hqueue
        · exact mem_breadthFirst_of_step hfound hstep hunseen

/-! ## §3. Distances. -/

/-- The first place is reached in no more steps than the other. -/
def Nearer (step : α → List α) (starts : List α) (a b : α) : Prop :=
  ∀ n, ReachedIn step starts n b → ∃ m ≤ n, ReachedIn step starts m a

/-- The queue of a search: places at distance `d`, and then places at the next
distance.  All that is unseen is at least as far, and is led to only from places in
the queue and unseen ones. -/
structure Frontier (step : α → List α) (starts : List α) (d : Nat)
    (near far unseen : List α) : Prop where
  near_reached : ∀ a ∈ near, ReachedIn step starts d a
  far_reached : ∀ a ∈ far, ReachedIn step starts (d + 1) a
  near_le : ∀ a ∈ near, ∀ n, ReachedIn step starts n a → d ≤ n
  far_lt : ∀ a ∈ far, ∀ n, ReachedIn step starts n a → d < n
  unseen_lt : ∀ a ∈ unseen, ∀ n, ReachedIn step starts n a → d < n
  led : ∀ a n, ReachedIn step starts n a → ∀ b ∈ step a, b ∈ unseen →
    a ∈ near ∨ a ∈ far ∨ a ∈ unseen
  nodup : unseen.Nodup

omit [DecidableEq α] in
/-- When all places at one distance are done, those at the next are the nearest. -/
theorem Frontier.advance {d : Nat} {far unseen : List α}
    (h : Frontier step starts d [] far unseen) :
    Frontier step starts (d + 1) far [] unseen where
  near_reached := h.far_reached
  far_reached := fun a ha => by cases ha
  near_le := h.far_lt
  far_lt := fun a ha => by cases ha
  unseen_lt := by
    intro b hb n hn
    have hlt := h.unseen_lt b hb n hn
    -- in one step more than `d` it would be led to from a place that is done
    rcases Nat.lt_or_eq_of_le hlt with hlt | rfl
    · exact hlt
    · obtain ⟨a, ha, hstep⟩ := hn
      rcases h.led a d ha b hstep hb with hnear | hfar | hunseen
      · cases hnear
      · exact absurd (h.far_lt a hfar d ha) (Nat.lt_irrefl d)
      · exact absurd (h.unseen_lt a hunseen d ha) (Nat.lt_irrefl d)
  led := by
    intro a n ha b hstep hb
    rcases h.led a n ha b hstep hb with hnear | hfar | hunseen
    · cases hnear
    · exact .inl hfar
    · exact .inr (.inr hunseen)
  nodup := h.nodup

/-- When a near place is expanded, what it discovers is one step farther and joins the far ones,
so that nothing unseen is as near as before. -/
theorem Frontier.expand {d : Nat} {a : α} {near far unseen : List α}
    (h : Frontier step starts d (a :: near) far unseen) :
    Frontier step starts d near (far ++ (discover unseen (step a)).1)
      (discover unseen (step a)).2 where
  near_reached := fun b hb => h.near_reached b (List.mem_cons_of_mem _ hb)
  far_reached := by
    intro b hb
    rcases List.mem_append.mp hb with hb | hb
    · exact h.far_reached b hb
    · exact ⟨a, h.near_reached a List.mem_cons_self, ((mem_discover (step a)).mp hb).2⟩
  near_le := fun b hb => h.near_le b (List.mem_cons_of_mem _ hb)
  far_lt := by
    intro b hb
    rcases List.mem_append.mp hb with hb | hb
    · exact h.far_lt b hb
    · exact h.unseen_lt b ((mem_discover (step a)).mp hb).1
  unseen_lt := fun b hb => h.unseen_lt b (mem_of_mem_left hb)
  led := by
    intro c n hc b hstep hb
    rcases h.led c n hc b hstep (mem_of_mem_left hb) with hnear | hfar | hunseen
    · rcases List.mem_cons.mp hnear with rfl | hnear
      · -- what the first place leads to is discovered, and not left
        have hnew := (mem_discover (step c)).mpr ⟨mem_of_mem_left hb, hstep⟩
        exact absurd rfl ((List.nodup_append.mp (nodup_discover h.nodup (step c))).2.2
          b hnew b hb)
      · exact .inl hnear
    · exact .inr (.inl (List.mem_append_left _ hfar))
    · rcases mem_discover_or_left (step a) hunseen with hnew | hleft
      · exact .inr (.inl (List.mem_append_right _ hnew))
      · exact .inr (.inr hleft)
  nodup := (List.nodup_append.mp (nodup_discover h.nodup (step a))).2.1

theorem Frontier.le_of_mem {d : Nat} {near far unseen : List α}
    (h : Frontier step starts d near far unseen) {b : α}
    (hb : b ∈ breadthFirst step unseen (near ++ far)) {n : Nat}
    (hn : ReachedIn step starts n b) : d ≤ n := by
  have hmem := (breadthFirst_subperm step _ _).subset hb
  rw [List.mem_append, List.mem_append] at hmem
  rcases hmem with (hb | hb) | hb
  · exact h.near_le b hb n hn
  · exact Nat.le_of_lt (h.far_lt b hb n hn)
  · exact Nat.le_of_lt (h.unseen_lt b hb n hn)

/-- From a frontier places are found in the order of their distance. -/
theorem Frontier.pairwise {d : Nat} {near far unseen : List α}
    (h : Frontier step starts d near far unseen) :
    (breadthFirst step unseen (near ++ far)).Pairwise (Nearer step starts) := by
  generalize hqueue : near ++ far = queue
  induction unseen, queue using breadthFirst.induct step generalizing d near far with
  | case1 unseen => rw [breadthFirst]; exact .nil
  | case2 unseen a queue ih =>
      -- the first place is at the distance `d`, or else at the next
      have hfirst : ∃ d near far, Frontier step starts d (a :: near) far unseen
          ∧ near ++ far = queue := by
        cases near with
        | nil =>
            rw [List.nil_append] at hqueue
            subst hqueue
            exact ⟨d + 1, queue, [], h.advance, List.append_nil queue⟩
        | cons b near =>
            obtain ⟨rfl, rfl⟩ := List.cons.inj hqueue
            exact ⟨d, near, far, h, rfl⟩
      obtain ⟨d, near, far, h, rfl⟩ := hfirst
      have hnext := h.expand
      rw [breadthFirst]
      refine List.Pairwise.cons ?_ (ih hnext (List.append_assoc _ _ _).symm)
      intro b hb n hn
      rw [List.append_assoc] at hb
      exact ⟨d, hnext.le_of_mem hb hn, h.near_reached a List.mem_cons_self⟩

/-- No place is found before one that is nearer, if the graph holds all that are
reached. -/
theorem pairwise_search (hgraph : graph.Nodup)
    (hstarts : ∀ a ∈ starts, a ∈ graph)
    (hclosed : ∀ a ∈ graph, ∀ b ∈ step a, b ∈ graph) :
    (search step graph starts).Pairwise (Nearer step starts) := by
  have hfrontier : Frontier step starts 0 (discover graph starts).1 []
      (discover graph starts).2 := {
    near_reached := fun a ha => ((mem_discover starts).mp ha).2
    far_reached := fun a ha => by cases ha
    near_le := fun a _ n _ => Nat.zero_le n
    far_lt := fun a ha => by cases ha
    unseen_lt := by
      intro a ha n hn
      cases n with
      | zero =>
          have hnew := (mem_discover starts).mpr ⟨mem_of_mem_left ha, hn⟩
          exact absurd rfl ((List.nodup_append.mp (nodup_discover hgraph starts)).2.2 a hnew a ha)
      | succ n => exact Nat.succ_pos n
    led := by
      intro a n ha b _ _
      have hfound := mem_graph_of_mem_search ((mem_search hstarts hclosed).mpr ⟨n, ha⟩)
      rcases mem_discover_or_left starts hfound with hqueue | hunseen
      · exact .inl hqueue
      · exact .inr (.inr hunseen)
    nodup := (List.nodup_append.mp (nodup_discover hgraph starts)).2.1 }
  have hpairwise := hfrontier.pairwise
  rw [List.append_nil] at hpairwise
  exact hpairwise

end ApiGuard.Search
