/-
  ApiGuard.Proofs.Search.Order
  ────────────────────────────
  The order in which a breadth-first search finds places.

  A search lists its starting places and then, for each place of its own list in turn,
  those that steps lead to from there, each place where it comes up first.  So the list is
  described by itself, and the order of two places is that of the places which they are
  found from:

      search_eq             what is found is what comes up first
      comesBefore_flatMap   what comes up from an earlier place comes up earlier
      comesBefore_search    the order of two places that a search finds
-/
import ApiGuard.Proofs.Search.Distance

namespace ApiGuard

universe u

variable {α : Type u} [DecidableEq α]

/-! ## §1. Before each other. -/

/-- In the list the first element comes up before the other does. -/
def ComesBefore (l : List α) (a b : α) : Prop := l.idxOf a < l.idxOf b

instance (l : List α) (a b : α) : Decidable (ComesBefore l a b) :=
  inferInstanceAs (Decidable (l.idxOf a < l.idxOf b))

/-- In appended lists an element of the first comes before what the first does not have, and the
order of the second counts where the first has neither. -/
theorem comesBefore_append {l l' : List α} {a b : α} :
    ComesBefore (l ++ l') a b
      ↔ (a ∈ l ∧ (b ∈ l → ComesBefore l a b)) ∨ (a ∉ l ∧ b ∉ l ∧ ComesBefore l' a b) := by
  have hplace : ∀ c, (l ++ l').idxOf c = if c ∈ l then l.idxOf c else l'.idxOf c + l.length :=
    fun c => List.idxOf_append
  have hlt : ∀ c ∈ l, l.idxOf c < l.length := fun c hc => List.idxOf_lt_length_of_mem hc
  unfold ComesBefore
  rw [hplace, hplace]
  -- what is in the first list has its place there, all else comes after this list
  by_cases ha : a ∈ l
  · by_cases hb : b ∈ l
    · simp [ha, hb]
    · have := hlt a ha
      simp [ha, hb]
      omega
  · by_cases hb : b ∈ l
    · have := hlt b hb
      simp [ha, hb]
      omega
    · simp [ha, hb]

theorem comesBefore_cons {l : List α} {c a b : α} :
    ComesBefore (c :: l) a b
      ↔ (a = c ∧ b ≠ c) ∨ (a ≠ c ∧ b ≠ c ∧ ComesBefore l a b) := by
  have hsingle : ¬ ComesBefore [c] c c := Nat.lt_irrefl _
  rw [← List.singleton_append, comesBefore_append, List.mem_singleton, List.mem_singleton]
  by_cases ha : a = c
  · subst ha
    by_cases hb : b = a
    · simp [hb, hsingle]
    · simp [hb]
  · simp [ha]

/-- What another element does not come before is that element or comes before it. -/
theorem eq_or_comesBefore {l : List α} {a b : α} (ha : a ∈ l) (hnot : ¬ ComesBefore l b a) :
    a = b ∨ ComesBefore l a b := by
  rcases Nat.lt_or_eq_of_le (Nat.le_of_not_lt hnot) with hlt | heq
  · exact .inr hlt
  · exact .inl ((List.idxOf_inj ha).mp heq)

/-- No element with the property comes before the first one. -/
theorem not_comesBefore_of_find? {P : α → Bool} {l : List α} {a b : α}
    (hfind : l.find? P = some a) (hb : P b = true) : ¬ ComesBefore l b a := by
  obtain ⟨_, before, after, rfl, hbefore⟩ := List.find?_eq_some_iff_append.mp hfind
  have hnot : b ∉ before := fun hmem => by simpa [hb] using hbefore b hmem
  rw [comesBefore_append, comesBefore_cons]
  simp [hnot]

/-- What holds between each element and those after it holds for elements in this order. -/
theorem rel_of_comesBefore {R : α → α → Prop} {a b : α} :
    ∀ {l : List α}, l.Pairwise R → b ∈ l → ComesBefore l a b → R a b := by
  intro l
  induction l with
  | nil =>
      intro _ hb
      cases hb
  | cons c l ih =>
      intro hpairwise hb hbefore
      rcases comesBefore_cons.mp hbefore with ⟨rfl, hbc⟩ | ⟨_, hbc, hrest⟩
      · exact List.rel_of_pairwise_cons hpairwise ((List.mem_cons.mp hb).resolve_left hbc)
      · exact ih hpairwise.of_cons ((List.mem_cons.mp hb).resolve_left hbc) hrest

/-- To pick elements out of a list keeps their order. -/
theorem comesBefore_filter {P : α → Bool} {a b : α} (ha : P a = true) (hb : P b = true) :
    ∀ {l : List α}, ComesBefore (l.filter P) a b ↔ ComesBefore l a b := by
  intro l
  induction l with
  | nil => rfl
  | cons c l ih =>
      rw [comesBefore_cons]
      cases hc : P c with
      | true => rw [List.filter_cons_of_pos hc, comesBefore_cons, ih]
      | false =>
          -- neither of the two is left out
          have hac : a ≠ c := fun heq => by simp [heq, hc] at ha
          have hbc : b ≠ c := fun heq => by simp [heq, hc] at hb
          rw [List.filter_cons_of_neg (by simp [hc]), ih]
          simp [hac, hbc]

/-- What comes up from an earlier element comes up earlier, and from the same element it
comes in the order there. -/
theorem comesBefore_flatMap {f : α → List α} {a b : α} :
    ∀ {l : List α} {p q : α}, l.find? (a ∈ f ·) = some p → l.find? (b ∈ f ·) = some q →
      (ComesBefore (l.flatMap f) a b ↔ ComesBefore l p q ∨ (p = q ∧ ComesBefore (f p) a b)) := by
  intro l
  induction l with
  | nil =>
      intro p q hp
      cases hp
  | cons c l ih =>
      intro p q hp hq
      rw [List.flatMap_cons, comesBefore_append, comesBefore_cons]
      have hpa : a ∈ f p := by simpa using List.find?_some hp
      have hqb : b ∈ f q := by simpa using List.find?_some hq
      rw [List.find?_cons] at hp hq
      by_cases ha : a ∈ f c
      · obtain rfl : c = p := by simpa [ha] using hp
        by_cases hb : b ∈ f c
        · -- both come up from the head, in the order there
          obtain rfl : c = q := by simpa [hb] using hq
          simp [ha, hb]
        · -- only the first one comes up from the head
          have hne : q ≠ c := fun heq => hb (heq ▸ hqb)
          simp [ha, hb, hne]
      · have hpc : p ≠ c := fun heq => ha (heq ▸ hpa)
        by_cases hb : b ∈ f c
        · obtain rfl : c = q := by simpa [hb] using hq
          simp [ha, hb, hpc]
        · -- neither comes up from the head, so that the rest decides
          have hqc : q ≠ c := fun heq => hb (heq ▸ hqb)
          have hrest := ih (by simpa [ha] using hp) (by simpa [hb] using hq)
          simp [ha, hb, hpc, hqc, hrest]

namespace Search

variable {step : α → List α} {graph starts : List α}

/-! ## §2. The list of a search. -/

theorem discover_append (places more : List α) :
    ∀ unseen : List α, (discover unseen (places ++ more)).1
      = (discover unseen places).1 ++ (discover (discover unseen places).2 more).1 := by
  induction places with
  | nil => intro unseen; rfl
  | cons a rest ih =>
      intro unseen
      rw [List.cons_append, discover, discover]
      split
      next =>
          show a :: (discover (unseen.erase a) (rest ++ more)).1 = _
          rw [ih]
          rfl
      next => exact ih unseen

/-- After the places of the queue come those that are discovered from the places of the list
itself. -/
theorem breadthFirst_eq (step : α → List α) (unseen queue : List α) :
    breadthFirst step unseen queue
      = queue ++ (discover unseen ((breadthFirst step unseen queue).flatMap step)).1 := by
  induction unseen, queue using breadthFirst.induct step with
  | case1 unseen => rw [breadthFirst]; rfl
  | case2 unseen a queue ih =>
      rw [breadthFirst, List.flatMap_cons, discover_append, ← List.append_assoc, List.cons_append,
        List.cons_append]
      -- what is discovered from the first place stands at the end of the queue
      exact congrArg (a :: ·) ih

/-- A search finds the starting places and what steps lead to from the places found, each
where it comes up first. -/
theorem search_eq (step : α → List α) (graph starts : List α) :
    search step graph starts
      = (discover graph (starts ++ (search step graph starts).flatMap step)).1 := by
  rw [discover_append]
  exact breadthFirst_eq step _ _

/-- To discover places keeps their order. -/
theorem comesBefore_discover {a b : α} (places : List α) :
    ∀ {unseen : List α}, a ∈ (discover unseen places).1 → b ∈ (discover unseen places).1 →
      (ComesBefore (discover unseen places).1 a b ↔ ComesBefore places a b) := by
  induction places with
  | nil =>
      intro unseen ha
      cases ha
  | cons c rest ih =>
      intro unseen ha hb
      have hunseen := ((mem_discover _).mp ha).1
      have hunseen' := ((mem_discover _).mp hb).1
      rw [discover] at ha hb ⊢
      rw [comesBefore_cons]
      split at ha
      next hc =>
          rw [if_pos hc] at hb ⊢
          rw [comesBefore_cons]
          by_cases hac : a = c
          · simp [hac]
          · by_cases hbc : b = c
            · simp [hac, hbc]
            · have hrest := ih ((List.mem_cons.mp ha).resolve_left hac)
                ((List.mem_cons.mp hb).resolve_left hbc)
              simp [hac, hbc, hrest]
      next hc =>
          -- a place that is not discovered is neither of the two
          rw [if_neg hc] at hb ⊢
          have hac : a ≠ c := fun heq => hc (heq ▸ hunseen)
          have hbc : b ≠ c := fun heq => hc (heq ▸ hunseen')
          rw [ih ha hb]
          simp [hac, hbc]

/-! ## §3. Where places are found from. -/

/-- What is found and is no starting place is found from a place of the list. -/
theorem exists_find?_of_mem_search {a : α} (ha : a ∈ search step graph starts)
    (hstart : a ∉ starts) :
    ∃ p, (search step graph starts).find? (a ∈ step ·) = some p := by
  rw [search_eq] at ha
  have hup := (List.mem_append.mp ((mem_discover _).mp ha).2).resolve_left hstart
  obtain ⟨p, hp, hstep⟩ := List.mem_flatMap.mp hup
  have hsome : ((search step graph starts).find? (a ∈ step ·)).isSome := by
    rw [List.find?_isSome]
    exact ⟨p, hp, by simpa using hstep⟩
  exact Option.isSome_iff_exists.mp hsome

/-- One place comes before another just if the first place of the list with a step to it
does, or if this is the same for both and its steps come in this order. -/
theorem comesBefore_search {a b p q : α} (ha : a ∈ search step graph starts)
    (hb : b ∈ search step graph starts) (hastart : a ∉ starts) (hbstart : b ∉ starts)
    (hp : (search step graph starts).find? (a ∈ step ·) = some p)
    (hq : (search step graph starts).find? (b ∈ step ·) = some q) :
    ComesBefore (search step graph starts) a b
      ↔ ComesBefore (search step graph starts) p q ∨ (p = q ∧ ComesBefore (step p) a b) := by
  have hdiscover : ComesBefore (search step graph starts) a b
      ↔ ComesBefore (starts ++ (search step graph starts).flatMap step) a b := by
    rw [search_eq] at ha hb
    conv_lhs => rw [search_eq]
    exact comesBefore_discover _ ha hb
  rw [hdiscover, comesBefore_append, ← comesBefore_flatMap hp hq]
  simp [hastart, hbstart]

end Search

end ApiGuard
