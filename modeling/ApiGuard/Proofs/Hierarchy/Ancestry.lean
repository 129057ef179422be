/-
  ApiGuard.Proofs.Hierarchy.Ancestry
  ──────────────────────────────────
  The ancestors and the descendants of a class, by links.

  A class is above another if a chain of links leads up to it (`Climbs`), and its height
  above the other is the least number of links of such a chain.  Ancestors are found by
  going up and descendants by going down, and both follow the same chains, in circles too:

      mem_subtypes          the descendants are what the class is above, and itself
      mem_ancestors         the ancestors are what is above the class, but not itself
      pairwise_ancestors    no ancestor comes before one that is nearer
      traversals_exact      all of this for a hierarchy that operations build
-/
import ApiGuard.Proofs.Hierarchy.Links
import ApiGuard.Proofs.Search.Distance
import Mathlib.Order.Lattice.Nat

namespace ApiGuard

/-- A search from one place of the graph finds this place first. -/
theorem Search.search_singleton {α : Type} [DecidableEq α] {step : α → List α} {graph : List α}
    {a : α} (ha : a ∈ graph) :
    Search.search step graph [a] = a :: (Search.search step graph [a]).tail := by
  have hfirst : (Search.discover graph [a]).1 = [a] := by
    rw [Search.discover, if_pos ha]
    rfl
  unfold Search.search
  rw [hfirst, Search.breadthFirst]
  rfl

namespace Hierarchy

variable {h : Hierarchy} {c p : String}

/-! ## §1. Parents and children. -/

theorem mem_parents : p ∈ h.parents c ↔ h.IsLinked c p := by
  unfold parents IsLinked
  simp only [List.mem_append, List.mem_filter, List.any_eq_true, beq_iff_eq, Bool.and_eq_true,
    decide_eq_true_eq]
  constructor
  · rintro (⟨_, l, ⟨hl, hchild⟩, _, hparent⟩ | ⟨_, l, ⟨hl, hchild⟩, _, hparent⟩)
    · exact ⟨l, hl, hchild, hparent⟩
    · exact ⟨l, hl, hchild, hparent⟩
  · rintro ⟨l, hl, hchild, rfl⟩
    have hname : l.parent ∈ h.names := (h.link_known l hl).2
    cases hkind : l.kind with
    | superclass => exact .inl ⟨hname, l, ⟨hl, hchild⟩, hkind, rfl⟩
    | interface => exact .inr ⟨hname, l, ⟨hl, hchild⟩, hkind, rfl⟩

theorem mem_children : c ∈ h.children p ↔ h.IsLinked c p := by
  unfold children IsLinked
  simp only [List.mem_map, List.mem_filter, beq_iff_eq]
  constructor
  · rintro ⟨l, ⟨hl, hparent⟩, hchild⟩
    exact ⟨l, hl, hchild, hparent⟩
  · rintro ⟨l, hl, hchild, hparent⟩
    exact ⟨l, ⟨hl, hparent⟩, hchild⟩

/-! ## §2. Chains of links. -/

/-- A chain of so many links leads from the first class up to the second. -/
def Climbs (h : Hierarchy) : Nat → String → String → Prop
  | 0, c, p => c = p
  | n + 1, c, p => ∃ next, h.Climbs n c next ∧ h.IsLinked next p

/-- The least number of links from a class up to another. -/
noncomputable def height (h : Hierarchy) (c p : String) : Nat := sInf {n | h.Climbs n c p}

/-- A chain may also be taken apart at its first link. -/
theorem climbs_succ_iff {n : Nat} :
    ∀ {p : String}, h.Climbs (n + 1) c p ↔ ∃ next, h.IsLinked c next ∧ h.Climbs n next p := by
  induction n with
  | zero =>
      intro p
      constructor
      · rintro ⟨_, rfl, hlink⟩
        exact ⟨p, hlink, rfl⟩
      · rintro ⟨_, hlink, rfl⟩
        exact ⟨c, rfl, hlink⟩
  | succ n ih =>
      intro p
      constructor
      · rintro ⟨last, hclimbs, hlast⟩
        obtain ⟨next, hfirst, hrest⟩ := ih.mp hclimbs
        exact ⟨next, hfirst, last, hrest, hlast⟩
      · rintro ⟨next, hfirst, last, hrest, hlast⟩
        exact ⟨last, ih.mpr ⟨next, hfirst, hrest⟩, hlast⟩

theorem climbs_trans {m n : Nat} {next : String} (hfirst : h.Climbs m c next) :
    ∀ {p : String}, h.Climbs n next p → h.Climbs (m + n) c p := by
  induction n with
  | zero =>
      intro p hrest
      obtain rfl : next = p := hrest
      exact hfirst
  | succ n ih =>
      intro p hrest
      obtain ⟨last, hrest, hlink⟩ := hrest
      exact ⟨last, ih hrest, hlink⟩

/-- Where there are more links there are more chains. -/
theorem climbs_mono {h' : Hierarchy} {n : Nat} (hlinked : ∀ c p, h.IsLinked c p → h'.IsLinked c p) :
    ∀ {p : String}, h.Climbs n c p → h'.Climbs n c p := by
  induction n with
  | zero => exact id
  | succ n ih =>
      intro p hclimbs
      obtain ⟨next, hrest, hlink⟩ := hclimbs
      exact ⟨next, ih hrest, hlinked next p hlink⟩

/-- To search upward is to climb. -/
theorem reachedIn_parents {n : Nat} :
    ∀ {p : String}, Search.ReachedIn h.parents [c] n p ↔ h.Climbs n c p := by
  induction n with
  | zero =>
      intro p
      exact List.mem_singleton.trans eq_comm
  | succ n ih =>
      intro p
      unfold Search.ReachedIn Climbs
      simp only [ih, mem_parents]

/-- To search downward is to follow chains from their ends. -/
theorem reachedIn_children {n : Nat} :
    ∀ {c : String}, Search.ReachedIn h.children [p] n c ↔ h.Climbs n c p := by
  induction n with
  | zero =>
      intro c
      exact List.mem_singleton
  | succ n ih =>
      intro c
      rw [climbs_succ_iff]
      unfold Search.ReachedIn
      simp only [ih, mem_children]
      exact exists_congr fun _ => and_comm

theorem parents_mem_names : ∀ a ∈ h.names, ∀ b ∈ h.parents a, b ∈ h.names :=
  fun _ _ _ hb => (mem_names_of_isLinked (mem_parents.mp hb)).2

theorem children_mem_names : ∀ a ∈ h.names, ∀ b ∈ h.children a, b ∈ h.names :=
  fun _ _ _ hb => (mem_names_of_isLinked (mem_children.mp hb)).1

/-- From or to a class that is not known there is only the chain without links. -/
theorem eq_of_climbs_of_not_mem {n : Nat} (hclimbs : h.Climbs n c p)
    (hunknown : c ∉ h.names ∨ p ∉ h.names) : c = p := by
  cases n with
  | zero => exact hclimbs
  | succ n =>
      obtain ⟨last, _, hlast⟩ := id hclimbs
      obtain ⟨next, hfirst, _⟩ := climbs_succ_iff.mp hclimbs
      rcases hunknown with hc | hp
      · exact absurd (mem_names_of_isLinked hfirst).1 hc
      · exact absurd (mem_names_of_isLinked hlast).2 hp

/-! ## §3. Descendants. -/

/-- The descendants of a class are those from which a chain leads up to it. -/
theorem mem_subtypes : c ∈ h.subtypes p ↔ ∃ n, h.Climbs n c p := by
  unfold subtypes
  rw [SortedSet.mem_ofList, List.mem_cons]
  by_cases hp : p ∈ h.names
  · have hstarts : ∀ a ∈ [p], a ∈ h.names := fun a ha => List.mem_singleton.mp ha ▸ hp
    rw [Search.mem_search hstarts children_mem_names]
    simp only [reachedIn_children]
    exact or_iff_right_of_imp fun heq => ⟨0, heq⟩
  · -- the search does not start from a class that is not known
    have hnone : Search.search h.children h.names [p] = [] := by
      unfold Search.search
      rw [Search.discover, if_neg hp, Search.discover, Search.breadthFirst]
    rw [hnone, or_iff_left List.not_mem_nil]
    constructor
    · exact fun heq => ⟨0, heq⟩
    · rintro ⟨n, hclimbs⟩
      exact eq_of_climbs_of_not_mem hclimbs (.inr hp)

/-! ## §4. Ancestors. -/

/-- A known class is found before its ancestors. -/
theorem search_eq_cons_ancestors (hc : c ∈ h.names) :
    Search.search h.parents h.names [c] = c :: h.ancestors c := Search.search_singleton hc

theorem ancestors_of_not_mem (hc : c ∉ h.names) : h.ancestors c = [] := by
  unfold ancestors Search.search
  rw [Search.discover, if_neg hc, Search.discover, Search.breadthFirst]
  rfl

theorem nodup_cons_ancestors (h : Hierarchy) (c : String) : (c :: h.ancestors c).Nodup := by
  by_cases hc : c ∈ h.names
  · rw [← search_eq_cons_ancestors hc]
    exact Search.nodup_search h.names_nodup
  · rw [ancestors_of_not_mem hc]
    exact List.nodup_singleton c

/-- The ancestors of a class are the others to which a chain leads up from it. -/
theorem mem_ancestors : p ∈ h.ancestors c ↔ p ≠ c ∧ ∃ n, h.Climbs n c p := by
  by_cases hc : c ∈ h.names
  · have hstarts : ∀ a ∈ [c], a ∈ h.names := fun a ha => List.mem_singleton.mp ha ▸ hc
    have hfound : p ∈ c :: h.ancestors c ↔ ∃ n, h.Climbs n c p := by
      rw [← search_eq_cons_ancestors hc, Search.mem_search hstarts parents_mem_names]
      simp only [reachedIn_parents]
    rw [← hfound, List.mem_cons]
    have hself : c ∉ h.ancestors c := (List.nodup_cons.mp (nodup_cons_ancestors h c)).1
    constructor
    · intro hp
      exact ⟨fun heq => hself (heq ▸ hp), .inr hp⟩
    · rintro ⟨hne, hp⟩
      exact hp.resolve_left hne
  · rw [ancestors_of_not_mem hc]
    refine iff_of_false List.not_mem_nil ?_
    rintro ⟨hne, n, hclimbs⟩
    exact hne (eq_of_climbs_of_not_mem hclimbs (.inl hc)).symm

theorem isLeast_height (hp : p ∈ h.ancestors c) :
    IsLeast {n | h.Climbs n c p} (h.height c p) :=
  ⟨Nat.sInf_mem (mem_ancestors.mp hp).2, fun _ hn => Nat.sInf_le hn⟩

/-- No ancestor comes before one that is nearer. -/
theorem pairwise_ancestors (h : Hierarchy) (c : String) :
    (h.ancestors c).Pairwise fun p p' => h.height c p ≤ h.height c p' := by
  by_cases hc : c ∈ h.names
  · have hstarts : ∀ a ∈ [c], a ∈ h.names := fun a ha => List.mem_singleton.mp ha ▸ hc
    have hnearer : (Search.search h.parents h.names [c]).Pairwise (Search.Nearer h.parents [c]) :=
      Search.pairwise_search h.names_nodup hstarts parents_mem_names
    rw [search_eq_cons_ancestors hc] at hnearer
    refine hnearer.of_cons.imp_of_mem fun {p p'} _ hp' hle => ?_
    -- a shortest chain to the later one is matched by one to the earlier
    obtain ⟨m, hm, hreached⟩ := hle _ (reachedIn_parents.mpr (isLeast_height hp').1)
    exact Nat.le_trans (Nat.sInf_le (reachedIn_parents.mp hreached)) hm
  · rw [ancestors_of_not_mem hc]
    exact .nil

/-! ## §5. Both ways. -/

/-- After any operations, linked are the classes that some insertion that succeeded or some
closing has linked.

The descendants of a class are those from which a chain of links leads up to it, with the
class itself.  The ancestors are the other classes to which a chain leads up from it, each
once and none before one to which fewer links lead; a class that is not known has none.
So one class is an ancestor of another just if this is a descendant of it. -/
theorem traversals_exact (ops : List Operation) :
    (∀ c p, (built ops).IsLinked c p ↔ HappensIn built Adds ops (c, p))
    ∧ (∀ c p, c ∈ (built ops).subtypes p ↔ c = p ∨ ∃ n, (built ops).Climbs (n + 1) c p)
    ∧ (∀ c, ((built ops).ancestors c).Nodup
      ∧ (∀ p, p ∈ (built ops).ancestors c ↔ p ≠ c ∧ ∃ n, (built ops).Climbs n c p)
      ∧ (c ∉ (built ops).names → (built ops).ancestors c = [])
      ∧ (∀ p ∈ (built ops).ancestors c,
          IsLeast {n | (built ops).Climbs n c p} ((built ops).height c p))
      ∧ ((built ops).ancestors c).Pairwise
          fun p p' => (built ops).height c p ≤ (built ops).height c p')
    ∧ (∀ c p, c ≠ p →
        (p ∈ (built ops).ancestors c ↔ c ∈ (built ops).subtypes p)) := by
  refine ⟨fun c p => isLinked_built ops, fun c p => ?_, fun c =>
    ⟨(nodup_cons_ancestors _ c).of_cons, fun p => mem_ancestors, ancestors_of_not_mem,
      fun p hp => isLeast_height hp, pairwise_ancestors _ c⟩, fun c p hne => ?_⟩
  · rw [mem_subtypes]
    constructor
    · rintro ⟨n, hclimbs⟩
      cases n with
      | zero => exact .inl hclimbs
      | succ n => exact .inr ⟨n, hclimbs⟩
    · rintro (heq | ⟨n, hclimbs⟩)
      · exact ⟨0, heq⟩
      · exact ⟨n + 1, hclimbs⟩
  · rw [mem_ancestors, mem_subtypes]
    exact and_iff_right hne.symm

/-- Two classes that extend each other, one of which implements an interface and itself, and
an insertion that fails. -/
def circleOperations : List Operation :=
  [.define "app.A", .define "app.B", .link ⟨"app.A", "app.B", .superclass⟩,
    .link ⟨"app.B", "app.A", .superclass⟩, .link ⟨"app.B", "app.B", .interface⟩,
    .link ⟨"app.B", "app.Listener", .interface⟩, .link ⟨"app.Missing", "app.A", .superclass⟩,
    .close]

/-- In the circle each class is above the other, and a class is not above itself. -/
theorem traversals_exact_circle :
    (built circleOperations).ancestors "app.A" = ["app.B", "app.Listener", objectClass]
    ∧ "app.A" ≠ "app.Listener"
    ∧ "app.A" ∈ (built circleOperations).subtypes "app.Listener"
    ∧ ¬ (built circleOperations).IsLinked "app.Missing" "app.A"
    ∧ "app.Missing" ∉ (built circleOperations).names
    ∧ (built circleOperations).ancestors "app.Missing" = []
    ∧ (built circleOperations).height "app.A" "app.B"
        ≤ (built circleOperations).height "app.A" objectClass := by
  have hancestors : (built circleOperations).ancestors "app.A"
      = ["app.B", "app.Listener", objectClass] := by
    decide +kernel
  have hmissing : "app.Missing" ∉ (built circleOperations).names := by decide +kernel
  obtain ⟨_, _, htraversals, hdual⟩ := traversals_exact circleOperations
  obtain ⟨_, _, _, _, hsorted⟩ := htraversals "app.A"
  have hne : "app.A" ≠ "app.Listener" := by decide
  rw [hancestors] at hsorted
  refine ⟨hancestors, hne, (hdual _ _ hne).mp ?_, fun hlinked =>
    hmissing (mem_names_of_isLinked hlinked).1, hmissing,
    (htraversals "app.Missing").2.2.1 hmissing, List.rel_of_pairwise_cons hsorted (by simp)⟩
  rw [hancestors]
  simp

end Hierarchy

end ApiGuard
