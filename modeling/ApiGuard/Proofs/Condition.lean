/-
  ApiGuard.Proofs.Condition
  ─────────────────────────
  Path conditions and sets of them are known by what is in them.

  Tokens come to a path condition one after the other, and path conditions come to an edge
  one by one or several at once.  What has come is listed once each and in order, so that
  neither repetitions nor the order of arrival can be told from the result or from its text:

      isListing_ofList       the elements of a set, for any order that its comparison follows
      compare_tokens_iff     tokens that hold are first, and those of a kind are in the order
                             of the bytes of their texts
      compare_paths_iff      path conditions are in the lexicographic order of their tokens
      conditionsOf_addAll    what is on an edge after additions
      conditions_canonical   all of this for path conditions, and for the edges of a graph
-/
import ApiGuard.Proofs.CallGraph.Invariant
import ApiGuard.Proofs.Text.Utf8
import Mathlib.Data.List.Dedup

namespace ApiGuard

universe u

/-! ## §1. Listings. -/

/-- The list has what is given, each once and in the order. -/
structure IsListing {α : Type u} (Before : α → α → Prop) (given listed : List α) : Prop where
  mem_iff : ∀ a, a ∈ listed ↔ a ∈ given
  increasing : listed.Pairwise Before

namespace SortedSet

open Std

variable {α : Type u} [Ord α] [TransOrd α] [LawfulEqOrd α] {Before : α → α → Prop}

theorem isListing_ofList (h : ∀ {a b : α}, compare a b = .lt ↔ Before a b) (l : List α) :
    IsListing Before l (ofList l).toList where
  mem_iff _ := mem_ofList
  increasing := (ofList l).increasing.imp h.mp

/-- Lists come to the same set just if they have the same elements. -/
theorem ofList_eq_iff {l m : List α} : ofList l = ofList m ↔ ∀ a, a ∈ l ↔ a ∈ m := by
  constructor
  · intro heq a
    rw [← mem_ofList, heq, mem_ofList]
  · intro hsame
    exact ext fun a => by rw [mem_ofList, mem_ofList, hsame]

/-- A set is as large as there are different elements. -/
theorem size_ofList [DecidableEq α] (l : List α) : (ofList l).size = l.dedup.length := by
  refine ((List.perm_ext_iff_of_nodup (nodup_toList _) l.nodup_dedup).mpr fun a => ?_).length_eq
  rw [List.mem_dedup]
  exact mem_ofList

omit [TransOrd α] in
/-- Lists are compared at the first place where they differ. -/
theorem compare_lists_iff (h : ∀ {a b : α}, compare a b = .lt ↔ Before a b) {l m : List α} :
    compare l m = .lt ↔ List.Lex Before l m := by
  rw [List.compare_eq_compareLex]
  induction l generalizing m with
  | nil =>
      cases m with
      | nil => simp [List.compareLex_nil_nil]
      | cons b bs => simp [List.compareLex_nil_cons]
  | cons a as ih =>
      cases m with
      | nil => simp [List.compareLex_cons_nil]
      | cons b bs =>
          rw [List.compareLex_cons_cons, Ordering.then_eq_lt, h, ih, List.cons_lex_cons_iff,
            LawfulEqOrd.compare_eq_iff_eq]

end SortedSet

/-! ## §2. The order of tokens and of path conditions. -/

/-- Tokens that hold come before those that are negated, and tokens of one kind are in the
order of the bytes of their texts. -/
def GuardToken.Precedes : GuardToken → GuardToken → Prop
  | .holds s, .holds t => Text.Utf8.bytes s < Text.Utf8.bytes t
  | .holds _, .negated _ => True
  | .negated _, .holds _ => False
  | .negated s, .negated t => Text.Utf8.bytes s < Text.Utf8.bytes t

/-- Path conditions are in the lexicographic order of their tokens. -/
def PathCondition.Precedes (c d : PathCondition) : Prop :=
  List.Lex GuardToken.Precedes c.toList d.toList

theorem compare_tokens_iff {a b : GuardToken} : compare a b = .lt ↔ a.Precedes b := by
  have hsplit : compare a b = .lt ↔ a.rank < b.rank
      ∨ (a.rank = b.rank ∧ Text.Utf8.bytes a.text < Text.Utf8.bytes b.text) := by
    show ((compare a.rank b.rank).then (compare a.text b.text)) = .lt ↔ _
    rw [Ordering.then_eq_lt, Text.Utf8.compare_eq_lt_iff, Nat.compare_eq_lt, Nat.compare_eq_eq]
  rw [hsplit]
  -- the ranks decide between kinds, and the texts within one
  cases a <;> cases b <;> simp [GuardToken.Precedes, GuardToken.rank, GuardToken.text]

theorem compare_paths_iff {c d : PathCondition} : compare c d = .lt ↔ c.Precedes d :=
  SortedSet.compare_lists_iff compare_tokens_iff

/-- What has no tokens is listed first. -/
theorem head?_of_isListing {given listed : List PathCondition}
    (h : IsListing PathCondition.Precedes given listed) (hempty : ∅ ∈ listed) :
    listed.head? = some ∅ := by
  have hincreasing := h.increasing
  cases listed with
  | nil => exact absurd hempty List.not_mem_nil
  | cons c rest =>
      rcases List.mem_cons.mp hempty with heq | hlater
      · rw [heq]
        rfl
      · exact absurd (List.rel_of_pairwise_cons hincreasing hlater) List.not_lex_nil

/-- The condition of a path on which the tokens are met. -/
def PathCondition.through (tokens : List GuardToken) : PathCondition :=
  tokens.foldl SortedSet.insert ∅

/-! ## §3. Additions to an edge. -/

namespace CallGraph

variable {g : CallGraph} {id : Nat}

/-- What is added to an edge at a time: a path condition, or a set of them. -/
inductive Addition where
  | one (c : PathCondition)
  | several (cs : Conditions)
  deriving DecidableEq

/-- The path conditions that are added. -/
def Addition.conditions : Addition → List PathCondition
  | .one c => [c]
  | .several cs => cs.toList

/-- The operation that adds to the edge of this number. -/
def Addition.toOperation (id : Nat) : Addition → Operation
  | .one c => .addCondition id c
  | .several cs => .extend id cs

/-- All path conditions that are added. -/
def given (additions : List Addition) : List PathCondition := additions.flatMap Addition.conditions

/-- The graph after additions to an edge. -/
def addAll (g : CallGraph) (id : Nat) (additions : List Addition) : CallGraph :=
  additions.foldl (fun g addition => g.apply (addition.toOperation id)) g

theorem size_edges_addition (id : Nat) (addition : Addition) :
    (g.apply (addition.toOperation id)).edges.size = g.edges.size := by
  cases addition <;> exact Array.size_modify

theorem conditionsOf_modify (hid : id < g.edges.size) (f : Conditions → Conditions) :
    CallGraph.conditionsOf { g with
        edges := g.edges.modify id fun e => { e with conditions := f e.conditions } } id
      = f (g.conditionsOf id) := by
  unfold conditionsOf
  rw [Array.getElem?_modify, if_pos rfl, Array.getElem?_eq_getElem hid]
  rfl

/-- An addition puts its path conditions on the edge. -/
theorem conditionsOf_addition (hid : id < g.edges.size) (addition : Addition) :
    (g.apply (addition.toOperation id)).conditionsOf id
      = (g.conditionsOf id).insertMany addition.conditions := by
  cases addition with
  | one c => exact conditionsOf_modify hid (·.insert c)
  | several cs => exact conditionsOf_modify hid (·.union cs)

theorem conditionsOf_addAll (additions : List Addition) :
    ∀ {g : CallGraph}, id < g.edges.size → (g.addAll id additions).conditionsOf id
      = (g.conditionsOf id).insertMany (given additions) := by
  induction additions with
  | nil => exact fun _ => rfl
  | cons addition rest ih =>
      intro g hid
      have hstep : id < (g.apply (addition.toOperation id)).edges.size := by
        rw [size_edges_addition]
        exact hid
      show ((g.apply (addition.toOperation id)).addAll id rest).conditionsOf id = _
      rw [ih hstep, conditionsOf_addition hid]
      unfold SortedSet.insertMany given
      rw [List.flatMap_cons, List.foldl_append]

/-- On the edge is what was there before and what was given. -/
theorem conditionsOf_addAll_eq_ofList (hid : id < g.edges.size) (additions : List Addition) :
    (g.addAll id additions).conditionsOf id
      = SortedSet.ofList ((g.conditionsOf id).toList ++ given additions) := by
  rw [conditionsOf_addAll additions hid]
  refine SortedSet.ext fun c => ?_
  rw [SortedSet.mem_insertMany, SortedSet.mem_ofList, List.mem_append, or_comm,
    SortedSet.mem_def (s := g.conditionsOf id)]

theorem mem_conditionsOf_addAll (hid : id < g.edges.size) {additions : List Addition}
    {c : PathCondition} : c ∈ (g.addAll id additions).conditionsOf id
      ↔ c ∈ g.conditionsOf id ∨ c ∈ given additions := by
  rw [conditionsOf_addAll_eq_ofList hid, SortedSet.mem_ofList, List.mem_append,
    SortedSet.mem_def (s := g.conditionsOf id)]

/-- Additions come to the same just if those that are not on the edge are the same. -/
theorem conditionsOf_addAll_eq_iff (hid : id < g.edges.size) {l m : List Addition} :
    (g.addAll id l).conditionsOf id = (g.addAll id m).conditionsOf id
      ↔ ∀ c ∉ g.conditionsOf id, c ∈ given l ↔ c ∈ given m := by
  rw [conditionsOf_addAll_eq_ofList hid, conditionsOf_addAll_eq_ofList hid,
    SortedSet.ofList_eq_iff]
  refine forall_congr' fun c => ?_
  rw [List.mem_append, List.mem_append, ← SortedSet.mem_def]
  by_cases hc : c ∈ g.conditionsOf id <;> simp [hc]

/-- A path condition is new just if it is not on the edge. -/
theorem addCondition_snd_iff {c : PathCondition} :
    (g.addCondition id c).2 = true ↔ c ∉ g.conditionsOf id := by
  show (!(g.conditionsOf id).contains c) = true ↔ _
  rw [Bool.not_eq_true', Bool.eq_false_iff, ne_eq, SortedSet.contains_iff]

/-! ## §4. The canonical forms. -/

/-- Path conditions: tokens, one after the other, come to the same path condition just if they
are the same ones, and it then has the same text.  Its length is the number of different
tokens.  They are listed and written once each, first those that hold, and those of one kind
in the order of the bytes of their texts.

Edges: additions to an edge, be it one path condition at a time or several, come to the same
set just if those that were not there are the same ones, so that for an edge without conditions
it is known by what is given.  One more is new just if it neither was there nor was given.  The
path conditions are listed and written once each, in the lexicographic order of their tokens,
and the one without tokens is the first. -/
theorem conditions_canonical :
    (∀ s t : List GuardToken,
      (PathCondition.through s = PathCondition.through t ↔ ∀ x, x ∈ s ↔ x ∈ t)
      ∧ ((∀ x, x ∈ s ↔ x ∈ t) →
        (PathCondition.through s).render = (PathCondition.through t).render))
    ∧ (∀ s : List GuardToken,
      (PathCondition.through s).size = s.dedup.length
      ∧ IsListing GuardToken.Precedes s (PathCondition.through s).toList
      ∧ (PathCondition.through s).render
        = "[" ++ ", ".intercalate ((PathCondition.through s).toList.map GuardToken.render) ++ "]")
    ∧ (∀ (g : CallGraph) (id : Nat), id < g.edges.size →
      (∀ l m : List Addition,
        ((g.addAll id l).conditionsOf id = (g.addAll id m).conditionsOf id
          ↔ ∀ c ∉ g.conditionsOf id, c ∈ given l ↔ c ∈ given m)
        ∧ (g.conditionsOf id = ∅ →
          ((g.addAll id l).conditionsOf id = (g.addAll id m).conditionsOf id
            ↔ ∀ c, c ∈ given l ↔ c ∈ given m))
        ∧ ((∀ c, c ∈ given l ↔ c ∈ given m) →
          ((g.addAll id l).conditionsOf id).render = ((g.addAll id m).conditionsOf id).render))
      ∧ ∀ l : List Addition,
        (∀ c, ((g.addAll id l).addCondition id c).2 = true
          ↔ c ∉ g.conditionsOf id ∧ c ∉ given l)
        ∧ IsListing PathCondition.Precedes ((g.conditionsOf id).toList ++ given l)
          ((g.addAll id l).conditionsOf id).toList
        ∧ (∅ ∈ (g.addAll id l).conditionsOf id →
          ((g.addAll id l).conditionsOf id).toList.head? = some ∅)
        ∧ ((g.addAll id l).conditionsOf id).render
          = "[" ++ ", ".intercalate
            (((g.addAll id l).conditionsOf id).toList.map PathCondition.render) ++ "]") := by
  refine ⟨fun s t => ?_, fun s => ?_, fun g id hid => ⟨fun l m => ?_, fun l => ?_⟩⟩
  · have hiff : PathCondition.through s = PathCondition.through t ↔ ∀ x, x ∈ s ↔ x ∈ t :=
      SortedSet.ofList_eq_iff
    exact ⟨hiff, fun hsame => congrArg PathCondition.render (hiff.mpr hsame)⟩
  · exact ⟨SortedSet.size_ofList s, SortedSet.isListing_ofList compare_tokens_iff s, rfl⟩
  · have hiff := conditionsOf_addAll_eq_iff hid (l := l) (m := m)
    refine ⟨hiff, fun hnone => ?_, fun hsame => ?_⟩
    · rw [hiff, hnone]
      simp only [SortedSet.not_mem_empty, not_false_eq_true, true_implies]
    · rw [hiff.mpr fun c _ => hsame c]
  · have hlisting := SortedSet.isListing_ofList compare_paths_iff
      ((g.conditionsOf id).toList ++ given l)
    rw [← conditionsOf_addAll_eq_ofList hid] at hlisting
    refine ⟨fun c => ?_, hlisting, head?_of_isListing hlisting, rfl⟩
    rw [addCondition_snd_iff, mem_conditionsOf_addAll hid, not_or]

/-- An edge without conditions. -/
def unguardedEdge : CallGraph :=
  ((∅ : CallGraph).intern ⟨"<app.Main: void run()>", "<app.Listener: void on()>"⟩).1

/-- The release is old on a path, and a feature is there on it too. -/
def oldRelease : PathCondition := .through [.negated "sdk >= 26", .holds "ready != 0"]

/-- The same path conditions are given one by one, and then in a set and again. -/
theorem conditions_canonical_repeated :
    PathCondition.through [.negated "sdk >= 26", .holds "ready != 0", .negated "sdk >= 26"]
        = oldRelease
    ∧ oldRelease.size = 2 ∧ oldRelease.render = "[ready != 0, -sdk >= 26]"
    ∧ 0 < unguardedEdge.edges.size ∧ unguardedEdge.conditionsOf 0 = ∅
    ∧ (unguardedEdge.addAll 0 [.one oldRelease, .one ∅]).conditionsOf 0
        = (unguardedEdge.addAll 0 [.several (.ofList [∅, oldRelease]), .one ∅]).conditionsOf 0
    ∧ ((unguardedEdge.addAll 0 [.one oldRelease]).addCondition 0 ∅).2 = true
    ∧ ((unguardedEdge.addAll 0 [.one oldRelease, .one ∅]).conditionsOf 0).toList.head?
        = some ∅ := by
  obtain ⟨htokens, hlisted, hedges⟩ := conditions_canonical
  have hsize : 0 < unguardedEdge.edges.size := by decide +kernel
  have hnone : unguardedEdge.conditionsOf 0 = ∅ := by decide +kernel
  obtain ⟨hadded, hgiven⟩ := hedges unguardedEdge 0 hsize
  have hset : (SortedSet.ofList [∅, oldRelease]).toList = [∅, oldRelease] := by decide +kernel
  have hsame : ∀ c, c ∈ given [.one oldRelease, .one ∅]
      ↔ c ∈ given [.several (.ofList [∅, oldRelease]), .one ∅] := by
    intro c
    simp only [given, Addition.conditions, List.flatMap_cons, List.flatMap_nil, hset,
      List.mem_append, List.mem_cons, List.not_mem_nil, or_false]
    tauto
  refine ⟨(htokens _ _).1.mpr fun x => ?_, (hlisted _).1, by decide +kernel, hsize, hnone,
    ((hadded _ _).2.1 hnone).mpr hsame, ((hgiven _).1 _).mpr (by decide +kernel),
    (hgiven _).2.2.1 (by decide +kernel)⟩
  simp only [List.mem_cons, List.not_mem_nil, or_false]
  tauto

end CallGraph

end ApiGuard
