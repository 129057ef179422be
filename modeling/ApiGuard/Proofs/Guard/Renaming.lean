/-
  ApiGuard.Proofs.Guard.Renaming
  ──────────────────────────────
  Labels are only names.

  Markers are searched in the texts of assignments and tokens are the texts of conditions,
  and neither has a label in it.  So a body whose labels are renamed, apart from each other
  as before, has the same flow of control, is explored in the same way, and records the same
  calls under the same conditions:

      isRenamed_of_build          what building makes of renamed statements
      IsRenamed.explores          the same exploration
      IsRenamed.recordBody_eq     the same graph
      rename_labels               all of this for statements
-/
import ApiGuard.Proofs.Body.Graph
import ApiGuard.Proofs.Guard.Recording
import Mathlib.Data.Set.Function

namespace ApiGuard

/-! ## §1. Renamed statements. -/

/-- The statement with another name for the label that it names. -/
def Statement.rename (ρ : String → String) : Statement → Statement
  | .branch condition label => .branch condition (ρ label)
  | .goto label => .goto (ρ label)
  | .assign target value => .assign target value
  | .invoke call => .invoke call
  | .ret value => .ret value
  | .throw value => .throw value
  | .nop => .nop

/-- The statement with other names for the label that it bears and the one that it names. -/
def LabeledStatement.rename (ρ : String → String) (s : LabeledStatement) : LabeledStatement where
  label := s.label.map ρ
  statement := s.statement.rename ρ

variable {ρ : String → String}

namespace Statement

theorem label?_rename (s : Statement) : (s.rename ρ).label? = s.label?.map ρ := by
  cases s <;> rfl

theorem call?_rename (s : Statement) : (s.rename ρ).call? = s.call? := by
  cases s <;> rfl

theorem condition?_rename (s : Statement) : (s.rename ρ).condition? = s.condition? := by
  cases s <;> rfl

end Statement

/-- Only assignments change what is tainted, and they name no label. -/
theorem Taint.update_rename (markers : GuardMarkers) (taint : Taint) (s : Statement) :
    taint.update markers (s.rename ρ) = taint.update markers s := by
  cases s <;> rfl

namespace Body

variable {stmts : List LabeledStatement} {label : String} {i : Nat}

theorem bears_rename_iff {name : String} :
    Bears (stmts.map (·.rename ρ)) i name ↔ ∃ label, Bears stmts i label ∧ ρ label = name := by
  unfold Bears
  simp only [List.getElem?_map, Option.map_eq_some_iff]
  constructor
  · intro hbears
    obtain ⟨_, ⟨s, hs, rfl⟩, hname⟩ := hbears
    obtain ⟨label, hlabel, heq⟩ := Option.map_eq_some_iff.mp hname
    exact ⟨label, ⟨s, hs, hlabel⟩, heq⟩
  · intro hbears
    obtain ⟨label, ⟨s, hs, hlabel⟩, heq⟩ := hbears
    exact ⟨_, ⟨s, hs, rfl⟩, Option.map_eq_some_iff.mpr ⟨label, hlabel, heq⟩⟩

/-- After a renaming a statement names the new name of what it named. -/
theorem names_rename_iff {name : String} :
    Names (stmts.map (·.rename ρ)) i name ↔ ∃ label, Names stmts i label ∧ ρ label = name := by
  unfold Names
  simp only [List.getElem?_map, Option.map_eq_some_iff]
  constructor
  · intro hnames
    obtain ⟨_, ⟨s, hs, rfl⟩, hname⟩ := hnames
    rw [LabeledStatement.rename, Statement.label?_rename, Option.map_eq_some_iff] at hname
    obtain ⟨label, hlabel, heq⟩ := hname
    exact ⟨label, ⟨s, hs, hlabel⟩, heq⟩
  · intro hnames
    obtain ⟨label, ⟨s, hs, hlabel⟩, heq⟩ := hnames
    refine ⟨_, ⟨s, hs, rfl⟩, ?_⟩
    rw [LabeledStatement.rename, Statement.label?_rename, Option.map_eq_some_iff]
    exact ⟨label, hlabel, heq⟩

/-- The labels that statements bear or name. -/
def labelSet (stmts : List LabeledStatement) : Set String :=
  {label | ∃ i, Bears stmts i label ∨ Names stmts i label}

theorem mem_labelSet_iff :
    label ∈ labelSet stmts
      ↔ ∃ s ∈ stmts, s.label = some label ∨ s.statement.label? = some label := by
  constructor
  · intro hlabel
    obtain ⟨i, ⟨s, hs, hbears⟩ | ⟨s, hs, hnames⟩⟩ := hlabel
    · exact ⟨s, List.mem_of_getElem? hs, .inl hbears⟩
    · exact ⟨s, List.mem_of_getElem? hs, .inr hnames⟩
  · intro hlabel
    obtain ⟨s, hs, hlabel⟩ := hlabel
    obtain ⟨i, hi⟩ := List.mem_iff_getElem?.mp hs
    exact ⟨i, hlabel.imp (fun hbears => ⟨s, hi, hbears⟩) fun hnames => ⟨s, hi, hnames⟩⟩

variable (hρ : Set.InjOn ρ (labelSet stmts))

include hρ

/-- A statement bears the new name of a label of the method just if it bears the label. -/
theorem bears_rename_apply_iff (hlabel : label ∈ labelSet stmts) :
    Bears (stmts.map (·.rename ρ)) i (ρ label) ↔ Bears stmts i label := by
  rw [bears_rename_iff]
  constructor
  · intro hbears
    obtain ⟨other, hother, heq⟩ := hbears
    exact hρ ⟨i, .inl hother⟩ hlabel heq ▸ hother
  · intro hbears
    exact ⟨label, hbears, rfl⟩

theorem areDistinct_rename_iff :
    AreDistinct (stmts.map (·.rename ρ)) ↔ AreDistinct stmts := by
  constructor
  · intro hdistinct i j label hi hj
    exact hdistinct i j (ρ label) (bears_rename_iff.mpr ⟨label, hi, rfl⟩)
      (bears_rename_iff.mpr ⟨label, hj, rfl⟩)
  · intro hdistinct i j name hi hj
    obtain ⟨label, hlabel, rfl⟩ := bears_rename_iff.mp hi
    exact hdistinct i j label hlabel ((bears_rename_apply_iff hρ ⟨i, .inl hlabel⟩).mp hj)

theorem areKnown_rename_iff : AreKnown (stmts.map (·.rename ρ)) ↔ AreKnown stmts := by
  constructor
  · intro hknown i label hnames
    obtain ⟨j, hj⟩ := hknown i (ρ label) (names_rename_iff.mpr ⟨label, hnames, rfl⟩)
    exact ⟨j, (bears_rename_apply_iff hρ ⟨i, .inr hnames⟩).mp hj⟩
  · intro hknown i name hnames
    obtain ⟨label, hlabel, rfl⟩ := names_rename_iff.mp hnames
    obtain ⟨j, hj⟩ := hknown i label hlabel
    exact ⟨j, bears_rename_iff.mpr ⟨label, hj, rfl⟩⟩

/-- Labels keep their places. -/
theorem placeOf?_rename (hdistinct : AreDistinct stmts) (hlabel : label ∈ labelSet stmts) :
    placeOf? (stmts.map (·.rename ρ)) (ρ label) = placeOf? stmts label := by
  refine Option.ext fun j => ?_
  rw [placeOf?_eq_some_iff ((areDistinct_rename_iff hρ).mpr hdistinct),
    placeOf?_eq_some_iff hdistinct, bears_rename_apply_iff hρ hlabel]

omit hρ

/-- A statement has the same flow if the label that it names keeps its place. -/
theorem flowOf_rename {place place' : String → Option Nat} {s : Statement} {flow flow' : Flow}
    (hplace : ∀ label, s.label? = some label → place' (ρ label) = place label)
    (h : flowOf place s = .ok flow) (h' : flowOf place' (s.rename ρ) = .ok flow') :
    flow' = flow := by
  cases s with
  | branch _ label | goto label =>
      simp only [Statement.rename, flowOf, hplace label rfl] at h h'
      cases hlabel : place label with
      | none => rw [hlabel] at h; cases h
      | some i => rw [hlabel] at h h'; cases h; cases h'; rfl
  | assign | invoke | ret | throw | nop => cases h; cases h'; rfl

/-! ## §2. Renamed bodies. -/

/-- The bodies differ in the names of labels at most: control goes the same ways, and the
statements are the same but for the labels that they name. -/
structure IsRenamed (ρ : String → String) (body renamed : Body) : Prop where
  signature : renamed.signature = body.signature
  size : renamed.size = body.size
  flow : ∀ i, renamed.flow? i = body.flow? i
  statement : ∀ i, renamed.statement? i = (body.statement? i).map (Statement.rename ρ)

variable {signature : String} {body renamed : Body}

/-- Renamed statements make a renamed body. -/
theorem isRenamed_of_build (hρ : Set.InjOn ρ (labelSet stmts))
    (h : build signature stmts = .ok body)
    (h' : build signature (stmts.map (·.rename ρ)) = .ok renamed) : IsRenamed ρ body renamed := by
  obtain ⟨hsignature, _, hdistinct, _, _⟩ := of_build h
  obtain ⟨hsignature', _, _, _, _⟩ := of_build h'
  have hstatement : ∀ i, renamed.statement? i = (body.statement? i).map (Statement.rename ρ) := by
    intro i
    rw [statement?_of_build h', statement?_of_build h, List.getElem?_map, Option.map_map,
      Option.map_map]
    rfl
  refine ⟨hsignature'.trans hsignature.symm, ?_, fun i => ?_, hstatement⟩
  · rw [size_of_build h', size_of_build h, List.length_map]
  · cases hs : stmts[i]? with
    | some s =>
        obtain ⟨_, flow, hflow, hof⟩ := of_build_getElem? h hs
        have hs' : (stmts.map (·.rename ρ))[i]? = some (s.rename ρ) := by
          rw [List.getElem?_map, hs]
          rfl
        obtain ⟨_, flow', hflow', hof'⟩ := of_build_getElem? h' hs'
        have hplace : ∀ label, s.statement.label? = some label →
            placeOf? (stmts.map (·.rename ρ)) (ρ label) = placeOf? stmts label :=
          fun label hlabel => placeOf?_rename hρ hdistinct ⟨i, .inr ⟨s, hs, hlabel⟩⟩
        rw [hflow, hflow', flowOf_rename hplace hof hof']
    | none =>
        -- there is no place of either body
        have hnone : body.statement? i = none := by rw [statement?_of_build h, hs]; rfl
        have hnone' : renamed.statement? i = none := by rw [hstatement, hnone]; rfl
        rw [flow?, flow?, Option.map_eq_none_iff.mp hnone, Option.map_eq_none_iff.mp hnone']

namespace IsRenamed

variable (h : IsRenamed ρ body renamed)

include h

theorem next?_eq (i : Nat) : renamed.next? i = body.next? i := by
  rw [next?, next?, h.size]

theorem successors_eq (i : Nat) : renamed.successors i = body.successors i := by
  rw [successors, successors, h.flow, h.next?_eq]

theorem branchTarget?_eq (i : Nat) : renamed.branchTarget? i = body.branchTarget? i := by
  rw [branchTarget?, branchTarget?, h.flow]

theorem entries_eq : renamed.entries = body.entries := by
  rw [entries, entries, h.size, funext h.successors_eq]

theorem condition?_eq (i : Nat) : renamed.condition? i = body.condition? i := by
  rw [condition?, condition?, h.statement]
  cases body.statement? i with
  | none => rfl
  | some s => exact s.condition?_rename

theorem call?_eq (i : Nat) : renamed.call? i = body.call? i := by
  rw [call?, call?, h.statement]
  cases body.statement? i with
  | none => rfl
  | some s => exact s.call?_rename

/-! ## §3. Walks of renamed bodies. -/

variable {markers : GuardMarkers}

theorem after_eq (taint : Taint) (i : Nat) :
    taint.after markers renamed i = taint.after markers body i := by
  unfold Taint.after
  rw [h.statement]
  cases body.statement? i with
  | none => rfl
  | some s => exact Taint.update_rename markers taint s

theorem guardAt?_eq (taint : Taint) (i : Nat) :
    Walk.guardAt? renamed taint i = Walk.guardAt? body taint i := by
  rw [Walk.guardAt?, Walk.guardAt?, h.successors_eq, h.condition?_eq]

/-- The frames after a frame are the same, in the same order and with the same tokens. -/
theorem onward_eq (f : Frame) : Walk.onward markers renamed f = Walk.onward markers body f := by
  have horder : Walk.order renamed (f.taint.after markers body f.place) f.place
      = Walk.order body (f.taint.after markers body f.place) f.place := by
    rw [Walk.order, Walk.order, h.guardAt?_eq, h.branchTarget?_eq, h.successors_eq]
  have hadvance : Walk.advance markers renamed f = Walk.advance markers body f := by
    funext j
    rw [Walk.advance, Walk.advance, h.after_eq, Walk.token?, Walk.token?, h.guardAt?_eq,
      h.branchTarget?_eq]
  rw [Walk.onward, Walk.onward, h.after_eq, horder, hadvance]

/-- A renamed body is explored in the same way. -/
theorem explores {unseen left : SortedSet Nat} {frames : List Frame} {visits : List Visit}
    (hexplores : Walk.Explores markers body unseen frames visits left) :
    Walk.Explores markers renamed unseen frames visits left := by
  induction hexplores with
  | done => exact .done
  | skip seen _ ih => exact .skip seen ih
  | enter new _ _ ihi ihn =>
      rw [← h.onward_eq] at ihi
      exact .enter new ihi ihn

/-- A renamed body leaves the same graph. -/
theorem recordBody_eq (g : CallGraph) (subtypes : Subtyping) (markers : GuardMarkers) :
    g.recordBody subtypes markers renamed = g.recordBody subtypes markers body := by
  obtain ⟨visits, left, hvisits⟩ :=
    Walk.exists_explores markers body (Walk.places body) (body.entries.map Frame.entry)
  have hvisits' : Walk.Explores markers renamed (Walk.places renamed)
      (renamed.entries.map Frame.entry) visits left := by
    rw [Walk.places, h.size, h.entries_eq]
    exact h.explores hvisits
  have hrecord : ∀ (g : CallGraph) (v : Visit),
      g.recordAt subtypes renamed v.place v.condition
        = g.recordAt subtypes body v.place v.condition := by
    intro g v
    rw [CallGraph.recordAt, CallGraph.recordAt, h.call?_eq, h.signature]
  rw [hvisits.recordBody_eq, hvisits'.recordBody_eq, CallGraph.recordVisits,
    CallGraph.recordVisits]
  simp only [hrecord]

end IsRenamed

/-! ## §4. Labels are only names. -/

/-- Give the labels of a method other names, different ones to different labels.  Then a body
is built from the renamed statements just if one is built from the statements, with the same
entries, successors and targets of branches; and recording it leaves the same graph, from any
graph, with any subtyping and any markers. -/
theorem rename_labels (signature : String) {stmts : List LabeledStatement}
    (hρ : Set.InjOn ρ (labelSet stmts)) :
    ((∃ renamed, build signature (stmts.map (·.rename ρ)) = .ok renamed)
      ↔ ∃ body, build signature stmts = .ok body)
    ∧ (∀ body renamed, build signature stmts = .ok body →
        build signature (stmts.map (·.rename ρ)) = .ok renamed →
        renamed.entries = body.entries
        ∧ (∀ i, renamed.successors i = body.successors i)
        ∧ (∀ i, renamed.branchTarget? i = body.branchTarget? i)
        ∧ ∀ (g : CallGraph) (subtypes : Subtyping) (markers : GuardMarkers),
            g.recordBody subtypes markers renamed = g.recordBody subtypes markers body) := by
  constructor
  · rw [exists_build_eq_ok_iff, exists_build_eq_ok_iff, areDistinct_rename_iff hρ,
      areKnown_rename_iff hρ, ne_eq, List.map_eq_nil_iff]
  · intro body renamed hbody hrenamed
    have h := isRenamed_of_build hρ hbody hrenamed
    exact ⟨h.entries_eq, h.successors_eq, h.branchTarget?_eq, h.recordBody_eq⟩

/-- New names for the labels of the method that retries: a marker and two that are taken. -/
def exchangeNames (label : String) : String :=
  if label = "again" then animatorsCheck else if label = "call" then "again" else "call"

/-- With the new names the text of a branch has a marker, but the same graph is left. -/
theorem rename_labels_retry :
    Set.InjOn exchangeNames (labelSet retryStatements)
    ∧ ((retryStatements.map (·.rename exchangeNames))[3]?.map (·.statement.render))
        = some ("if sdk >= 26 goto " ++ animatorsCheck)
    ∧ ∃ renamed,
        build "<app.Main: void retry()>" (retryStatements.map (·.rename exchangeNames))
          = .ok renamed
        ∧ renamed.entries = [0, 5] ∧ renamed.successors 3 = [1, 4]
        ∧ renamed.branchTarget? 3 = some 1
        ∧ (∅ : CallGraph).recordBody listenerSubtypes {} renamed
            = (∅ : CallGraph).recordBody listenerSubtypes {} retryBody := by
  have hlabels : ∀ label ∈ labelSet retryStatements, label ∈ ["again", "call", "end"] := by
    have hall : ∀ s ∈ retryStatements,
        (∀ label ∈ s.label, label ∈ ["again", "call", "end"])
          ∧ ∀ label ∈ s.statement.label?, label ∈ ["again", "call", "end"] := by decide
    intro label hlabel
    obtain ⟨s, hs, hborne | hnamed⟩ := mem_labelSet_iff.mp hlabel
    · exact (hall s hs).1 label hborne
    · exact (hall s hs).2 label hnamed
  have hinjective : ∀ a ∈ ["again", "call", "end"], ∀ b ∈ ["again", "call", "end"],
      exchangeNames a = exchangeNames b → a = b := by
    decide
  have hρ : Set.InjOn exchangeNames (labelSet retryStatements) :=
    fun a ha b hb => hinjective a (hlabels a ha) b (hlabels b hb)
  obtain ⟨hbuild, hsame⟩ := rename_labels "<app.Main: void retry()>" hρ
  obtain ⟨renamed, hrenamed⟩ := hbuild.mpr ⟨retryBody, build_retryStatements⟩
  obtain ⟨hentries, hsuccessors, htarget, hgraph⟩ :=
    hsame retryBody renamed build_retryStatements hrenamed
  refine ⟨hρ, by cbv, renamed, hrenamed, ?_, ?_, ?_, hgraph ∅ listenerSubtypes {}⟩
  · rw [hentries]
    decide
  · rw [hsuccessors]
    decide
  · rw [htarget]
    decide

end Body

end ApiGuard
