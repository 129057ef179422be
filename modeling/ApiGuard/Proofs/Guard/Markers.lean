/-
  ApiGuard.Proofs.Guard.Markers
  ─────────────────────────────
  There is no token without a marker in the text of the body.

  A local is tainted only by an assignment whose text has a marker, and that text is part
  of the text of the body.  So a body without markers has no guards, whatever ways lead
  through it, and a graph gets its tokens from marked bodies alone:

      Taint.sourced_along             tainted locals have their markers in the body
      occurIn_of_isConditionOf        and so has every token of a way
      Justified.recordBody            recording keeps tokens to the methods of such bodies
      Justified.linkConstructors      and linking adds none
-/
import ApiGuard.Proofs.CallGraph.Constructors
import ApiGuard.Proofs.Guard.Assignments
import ApiGuard.Proofs.Guard.Monotone

namespace ApiGuard

/-! ## §1. Markers in texts. -/

/-- Some marker occurs in the text. -/
def GuardMarkers.OccurIn (markers : GuardMarkers) (text : String) : Prop :=
  ∃ marker ∈ markers.versionFields ++ markers.featureChecks, Text.mentions text marker = true

variable {markers : GuardMarkers} {body : Body}

theorem GuardMarkers.occurIn_iff {text : String} :
    markers.OccurIn text ↔ markers.marksVersion text = true ∨ markers.marksFeature text = true := by
  unfold OccurIn marksVersion marksFeature
  simp only [List.mem_append, List.any_eq_true, or_and_right, exists_or]

theorem Text.mentions_of_infix {text larger marker : String}
    (hpart : text.toList <:+: larger.toList) (hmentions : Text.mentions text marker = true) :
    Text.mentions larger marker = true :=
  Text.mentions_iff.mpr ((Text.mentions_iff.mp hmentions).trans hpart)

/-- The text of a statement is part of the text of its body. -/
theorem Body.infix_render {i : Nat} {s : Statement} (hs : body.statement? i = some s) :
    s.render.toList <:+: body.render.toList := by
  obtain ⟨step, hstep, rfl⟩ := Option.map_eq_some_iff.mp hs
  have hline : (step.statement.render ++ "\n")
      ∈ body.steps.toList.map fun step => step.statement.render ++ "\n" :=
    List.mem_map_of_mem (Array.mem_toList_iff.mpr (Array.mem_of_getElem? hstep))
  have hpart : (step.statement.render ++ "\n").toList <:+: body.render.toList := by
    unfold Body.render
    rw [String.toList_join]
    exact List.infix_of_mem_flatten (List.mem_map_of_mem hline)
  rw [String.toList_append] at hpart
  exact (List.prefix_append _ _).isInfix.trans hpart

theorem Body.occurIn_render {i : Nat} {s : Statement} (hs : body.statement? i = some s)
    (h : markers.OccurIn s.render) : markers.OccurIn body.render := by
  obtain ⟨marker, hmarker, hmentions⟩ := h
  exact ⟨marker, hmarker, Text.mentions_of_infix (Body.infix_render hs) hmentions⟩

/-! ## §2. Taint and tokens. -/

/-- If a local is tainted, some marker occurs in the body. -/
def Taint.Sourced (markers : GuardMarkers) (body : Body) (taint : Taint) : Prop :=
  ∀ name, name ∈ taint.version ∨ name ∈ taint.feature → markers.OccurIn body.render

/-- The last assignment to a tainted local is a statement of the body that has a marker. -/
theorem Taint.sourced_along (places : List Nat) :
    (Taint.along markers body places).Sourced markers body := by
  intro name hname
  rw [along_eq_through, version_through, feature_through, mem_foldl_track_iff,
    mem_foldl_track_iff, ← exists_or] at hname
  obtain ⟨s, hlast⟩ := hname
  rw [← and_or_left, ← GuardMarkers.occurIn_iff] at hlast
  obtain ⟨i, _, hs⟩ := List.mem_filterMap.mp hlast.1.mem
  exact Body.occurIn_render hs hlast.2

namespace Walk

/-- A token comes from a condition that reads a tainted local. -/
theorem occurIn_of_token? {taint : Taint} (h : taint.Sourced markers body) {i j : Nat}
    {token : GuardToken} (htoken : token? body taint i j = some token) :
    markers.OccurIn body.render := by
  obtain ⟨p, hp, _⟩ := Option.map_eq_some_iff.mp htoken
  unfold guardAt? at hp
  split at hp
  next =>
      obtain ⟨_, hguard⟩ := Option.filter_eq_some_iff.mp hp
      obtain ⟨name, _, htainted⟩ := List.any_eq_true.mp hguard
      rw [Bool.or_eq_true, SortedSet.contains_iff, SortedSet.contains_iff] at htainted
      exact h name htainted
  next => cases hp

/-- A way has tokens only if some marker occurs in the body. -/
theorem occurIn_of_isConditionOf {c : PathCondition} {way : List Nat}
    (h : IsConditionOf markers body c way) (hne : c ≠ ∅) : markers.OccurIn body.render := by
  obtain ⟨token, htoken⟩ := SortedSet.exists_mem_of_ne_empty hne
  obtain ⟨_, _, _, _, _, hat⟩ := (h token).mp htoken
  exact occurIn_of_token? (Taint.sourced_along _) hat

end Walk

/-! ## §3. Graphs. -/

namespace CallGraph

variable {g : CallGraph} {subtypes : Subtyping} {P Q : String → Prop}

/-- Every edge with a token starts from a method with the property. -/
def Justified (g : CallGraph) (P : String → Prop) : Prop :=
  ∀ a, ∀ c ∈ g.conditionsAt a, c ≠ ∅ → P a.source

theorem justified_empty : Justified ∅ P :=
  fun _ _ hc => absurd hc (SortedSet.not_mem_empty _)

theorem Justified.mono (hg : g.Justified P) (hle : ∀ method, P method → Q method) :
    g.Justified Q :=
  fun a c hc hne => hle a.source (hg a c hc hne)

/-- A body puts tokens only on edges from its own method: those of its ways, or, on edges
to overrides, those that some edge has had before. -/
theorem Justified.recordBody (hg : g.Justified P) (h : g.WellFormed)
    (hbody : markers.OccurIn body.render → P body.signature) :
    (g.recordBody subtypes markers body).Justified P := by
  intro a c hc hne
  obtain ⟨visits, left, hvisits⟩ :=
    Walk.exists_explores markers body (Walk.places body) (body.entries.map Frame.entry)
  rw [hvisits.recordBody_eq] at hc
  rcases of_mem_conditionsAt visits h hc with
    hc | ⟨hsource, _, ⟨target, hc⟩ | ⟨v, hv, rfl, _⟩⟩
  · exact hg a c hc hne
  · -- the condition comes from another edge, which starts from the same method
    rw [hsource]
    exact hg ⟨body.signature, target⟩ c hc hne
  · have hframes : ∀ f ∈ body.entries.map Frame.entry,
        ∃ before, Walk.HasWay markers body f before := by
      intro f hf
      obtain ⟨entry, hentry, rfl⟩ := List.mem_map.mp hf
      exact ⟨[], Walk.hasWay_entry hentry⟩
    obtain ⟨_, _, hcondition⟩ := hvisits.hasWay hframes hv
    rw [hsource]
    exact hbody (Walk.occurIn_of_isConditionOf hcondition hne)

/-- Linked edges get the empty condition only. -/
theorem Justified.linkConstructors (hg : g.Justified P) (h : g.Indexed) :
    g.linkConstructors.1.Justified P := by
  intro a c hc hne
  rcases h.mem_conditionsAt_linkConstructors.mp hc with hc | ⟨_, hempty⟩
  · exact hg a c hc hne
  · exact absurd hempty hne

/-- Guarded edges have tokens. -/
theorem Justified.of_isGuarded (hg : g.Justified P) (h : g.WellFormed) {e : Edge}
    (he : e ∈ g.storedEdges) (hguarded : e.isGuarded = true) : P e.source := by
  obtain ⟨c, hc, hne⟩ := Conditions.isGuarded_iff.mp hguarded
  rw [← h.conditionsAt_toArc he] at hc
  exact hg e.toArc c hc hne

end CallGraph

end ApiGuard
