/-
  ApiGuard.Proofs.Analysis.Reading
  ────────────────────────────────
  When the platform version counts as read.

  The fields of the version are searched in the text of a whole body, and not statement by
  statement.  So a field is also found where a label is in the text, and where a statement
  ends and the next one begins.  What is found otherwise is found in one statement, and does
  not depend on the names of labels:

      infix_ended_iff          where a text occurs in lines
      infix_render_iff         where one occurs in a body
      plain_of_build           labels that are left out may have any names
      readsVersion_where       when a body and an application read the version
      reads_label              a label that is taken for a field
-/
import ApiGuard.Proofs.Analysis.Operations
import ApiGuard.Proofs.Guard.Markers
import ApiGuard.Proofs.Guard.Renaming

namespace ApiGuard

/-! ## §1. Texts in lines. -/

namespace Text

/-- The lines one after the other, each with a newline at its end. -/
def ended (ls : List (List Char)) : List Char := ls.flatMap (· ++ ['\n'])

/-- The text begins in one of the lines and has the newline at the end of it. -/
inductive RunsOver (m : List Char) : List (List Char) → Prop
  /-- It begins in the first line, or with its newline. -/
  | here {l u v : List Char} {ls : List (List Char)} :
      m = u ++ '\n' :: v → u <:+ l → v <+: ended ls → RunsOver m (l :: ls)
  /-- It begins in a later line. -/
  | later {l : List Char} {ls : List (List Char)} : RunsOver m ls → RunsOver m (l :: ls)

variable {m l rest : List Char} {ls : List (List Char)} {c : Char}

theorem RunsOver.newline_mem (h : RunsOver m ls) : '\n' ∈ m := by
  induction h with
  | here heq => rw [heq]; exact List.mem_append_right _ List.mem_cons_self
  | later _ ih => exact ih

/-- A text that occurs in two others with a character between them is in one of them or has
this character. -/
theorem infix_append_cons_iff :
    m <:+: l ++ c :: rest
      ↔ m <:+: l ∨ m <:+: rest ∨ ∃ u v, m = u ++ c :: v ∧ u <:+ l ∧ v <+: rest := by
  rw [List.infix_append_iff]
  constructor
  · intro hm
    rcases hm with hleft | hright | ⟨u, v, heq, hu, hv⟩
    · exact .inl hleft
    · -- it begins with the character between them, or after it
      rcases List.infix_cons_iff.mp hright with hstart | hright
      · rcases List.prefix_cons_iff.mp hstart with rfl | ⟨v, rfl, hv⟩
        · exact .inl List.nil_infix
        · exact .inr (.inr ⟨[], v, rfl, List.nil_suffix, hv⟩)
      · exact .inr (.inl hright)
    · rcases List.prefix_cons_iff.mp hv with rfl | ⟨w, rfl, hw⟩
      · rw [heq, List.append_nil]
        exact .inl hu.isInfix
      · exact .inr (.inr ⟨u, w, heq, hu, hw⟩)
  · intro hm
    rcases hm with hleft | hright | ⟨u, v, heq, hu, hv⟩
    · exact .inl hleft
    · exact .inr (.inl (List.infix_cons_iff.mpr (.inr hright)))
    · exact .inr (.inr ⟨u, c :: v, heq, hu, List.prefix_cons_iff.mpr (.inr ⟨v, rfl, hv⟩)⟩)

/-- A text occurs in lines if it does in one of them or runs over an end. -/
theorem infix_ended_iff :
    m <:+: ended ls ↔ m = [] ∨ (∃ l ∈ ls, m <:+: l) ∨ RunsOver m ls := by
  induction ls with
  | nil =>
      have hnone : ¬ RunsOver m [] := nofun
      simp [ended, hnone]
  | cons l ls ih =>
      have hended : ended (l :: ls) = l ++ '\n' :: ended ls := by simp [ended]
      rw [hended, infix_append_cons_iff, ih, List.exists_mem_cons_iff]
      constructor
      · intro hm
        rcases hm with hhere | (hnil | hlater | hover) | ⟨u, v, heq, hu, hv⟩
        · exact .inr (.inl (.inl hhere))
        · exact .inl hnil
        · exact .inr (.inl (.inr hlater))
        · exact .inr (.inr (.later hover))
        · exact .inr (.inr (.here heq hu hv))
      · intro hm
        rcases hm with hnil | (hhere | hlater) | hover
        · exact .inr (.inl (.inl hnil))
        · exact .inl hhere
        · exact .inr (.inl (.inr (.inl hlater)))
        · cases hover with
          | here heq hu hv => exact .inr (.inr ⟨_, _, heq, hu, hv⟩)
          | later hover => exact .inr (.inl (.inr (.inr hover)))

end Text

/-! ## §2. Texts in statements. -/

variable {m : List Char}

namespace Statement

/-- The text of the statement without the label that it names. -/
def plain (s : Statement) : String := (s.rename fun _ => "").render

theorem plain_rename {ρ : String → String} (s : Statement) : (s.rename ρ).plain = s.plain := by
  cases s <;> rfl

/-- The label is the last part of the text. -/
theorem render_eq_plain_append (s : Statement) : s.render = s.plain ++ s.label?.getD "" := by
  cases s with
  | branch | goto => simp [plain, rename, render, label?]
  | assign | invoke | ret | throw | nop => exact String.append_empty.symm

/-- The text occurs in the label that the statement names, or begins before the label and ends
in it. -/
def ReachesLabel (s : Statement) (m : List Char) : Prop :=
  ∃ label, s.label? = some label ∧
    (m <:+: label.toList
      ∨ ∃ u v, v ≠ [] ∧ m = u ++ v ∧ u <:+ s.plain.toList ∧ v <+: label.toList)

/-- What is part of the text of a statement is part of what it does or reaches into the label that
it jumps to. -/
theorem infix_render_iff {s : Statement} :
    m <:+: s.render.toList ↔ m <:+: s.plain.toList ∨ s.ReachesLabel m := by
  unfold ReachesLabel
  rw [render_eq_plain_append, String.toList_append]
  cases s.label? with
  | none => simp
  | some label =>
      rw [Option.getD_some, List.infix_append_iff_ne_nil]
      simp only [Option.some.injEq, exists_eq_left']
      constructor
      · intro hm
        rcases hm with hplain | hlabel | ⟨u, v, _, hv, hreaches⟩
        · exact .inl hplain
        · exact .inr (.inl hlabel)
        · exact .inr (.inr ⟨u, v, hv, hreaches⟩)
      · intro hm
        rcases hm with hplain | hlabel | ⟨u, v, hv, heq, hu, hstart⟩
        · exact .inl hplain
        · exact .inr (.inl hlabel)
        · by_cases hnil : u = []
          · subst hnil
            exact .inr (.inl (heq ▸ hstart.isInfix))
          · exact .inr (.inr ⟨u, v, hnil, hv, heq, hu, hstart⟩)

/-- A text whose last character is not in the label does not reach into it. -/
theorem not_reachesLabel {s : Statement} (hne : m ≠ [])
    (hlast : ∀ label ∈ s.label?, ∀ c ∈ m.getLast?, c ∉ label.toList) : ¬ s.ReachesLabel m := by
  intro hreaches
  obtain ⟨label, hlabel, hreaches⟩ := hreaches
  -- in both ways the last character is one of the label
  apply hlast label hlabel (m.getLast hne) (List.getLast?_eq_some_getLast hne)
  rcases hreaches with hin | ⟨u, v, hv, rfl, _, hstart⟩
  · exact hin.subset (List.getLast_mem hne)
  · rw [List.getLast_append_of_ne_nil _ hv]
    exact hstart.subset (List.getLast_mem hv)

end Statement

/-! ## §3. Texts in bodies. -/

namespace Body

/-- The statements, in order. -/
def statements (body : Body) : List Statement := body.steps.toList.map (·.statement)

/-- The texts of the statements without the labels that they name. -/
def plain (body : Body) : List String := body.statements.map Statement.plain

theorem toList_render (body : Body) :
    body.render.toList = Text.ended (body.statements.map (·.render.toList)) := by
  unfold render Text.ended statements
  rw [String.toList_join, List.map_map, List.flatMap_map, List.flatMap_map]
  simp

theorem exists_mem_statements {body : Body} (h : 0 < body.size) : ∃ s, s ∈ body.statements := by
  unfold statements
  exact ⟨_, List.mem_map_of_mem (Array.getElem_mem_toList h)⟩

/-- A text occurs in a body if it does in a statement without its label, reaches into a label
or runs over the end of a statement. -/
theorem infix_render_iff {body : Body} (h : 0 < body.size) :
    m <:+: body.render.toList
      ↔ (∃ text ∈ body.plain, m <:+: text.toList)
        ∨ (∃ s ∈ body.statements, s.ReachesLabel m)
        ∨ Text.RunsOver m (body.statements.map (·.render.toList)) := by
  have hnil : m = [] → ∃ s ∈ body.statements, m <:+: s.plain.toList := by
    intro hm
    subst hm
    obtain ⟨s, hs⟩ := exists_mem_statements h
    exact ⟨s, hs, List.nil_infix⟩
  unfold plain
  rw [toList_render, Text.infix_ended_iff]
  simp only [List.mem_map, exists_exists_and_eq_and, Statement.infix_render_iff, and_or_left,
    exists_or, or_assoc]
  exact or_iff_right_of_imp fun hm => .inl (hnil hm)

variable {signature : String} {stmts : List LabeledStatement} {body renamed : Body}

theorem size_pos_of_build (h : build signature stmts = .ok body) : 0 < body.size := by
  rw [size_of_build h, List.length_pos_iff]
  exact (of_build h).2.1

theorem statements_of_build (h : build signature stmts = .ok body) :
    body.statements = stmts.map (·.statement) := by
  refine List.ext_getElem? fun i => ?_
  rw [List.getElem?_map, ← statement?_of_build h]
  simp [statements, statement?]

/-- Renamed statements make a body with the same texts without labels. -/
theorem plain_of_build {ρ : String → String} (h : build signature stmts = .ok body)
    (h' : build signature (stmts.map (·.rename ρ)) = .ok renamed) :
    renamed.plain = body.plain := by
  unfold plain
  rw [statements_of_build h, statements_of_build h']
  simp [LabeledStatement.rename, Statement.plain_rename]

end Body

/-! ## §4. Fields of the version. -/

namespace GuardMarkers

/-- Some field of the version occurs in one of the texts. -/
def OccurInSome (markers : GuardMarkers) (texts : List String) : Prop :=
  ∃ field ∈ markers.versionFields, ∃ text ∈ texts, field.toList <:+: text.toList

/-- No field of the version goes over lines, and none ends in a character of a label that a
statement names. -/
structure AreApartFrom (markers : GuardMarkers) (stmts : List Statement) : Prop where
  newline : ∀ field ∈ markers.versionFields, '\n' ∉ field.toList
  label : ∀ field ∈ markers.versionFields, ∀ s ∈ stmts, ∀ label ∈ s.label?,
    ∀ c ∈ field.toList.getLast?, c ∉ label.toList

/-- The fields end in a bracket, unless others are given. -/
theorem areApartFrom_default {stmts : List Statement}
    (h : ∀ s ∈ stmts, ∀ label ∈ s.label?, '>' ∉ label.toList) :
    ({} : GuardMarkers).AreApartFrom stmts := by
  have hfields : ∀ field ∈ ({} : GuardMarkers).versionFields,
      '\n' ∉ field.toList ∧ field.toList.getLast? = some '>' := by
    decide
  refine ⟨fun field hfield => (hfields field hfield).1, ?_⟩
  intro field hfield s hs label hlabel c hc
  rw [(hfields field hfield).2] at hc
  cases hc
  exact h s hs label hlabel

variable {markers : GuardMarkers} {body renamed : Body}

/-- Of fields that are apart from labels only the statements themselves matter. -/
theorem AreApartFrom.readsVersion_iff (hapart : markers.AreApartFrom body.statements)
    (h : 0 < body.size) :
    markers.readsVersion body = true ↔ markers.OccurInSome body.plain := by
  unfold readsVersion OccurInSome
  rw [marksVersion_iff]
  refine exists_congr fun field => and_congr_right fun hfield => ?_
  rw [Body.infix_render_iff h]
  refine or_iff_left_of_imp fun hother => ?_
  rcases hother with ⟨s, hs, hreaches⟩ | hover
  · -- only the empty field reaches into a label, and it occurs in every text
    by_cases hne : field.toList = []
    · refine ⟨s.plain, List.mem_map_of_mem hs, ?_⟩
      rw [hne]
      exact List.nil_infix
    · exact absurd hreaches (Statement.not_reachesLabel hne (hapart.label field hfield s hs))
  · exact absurd hover.newline_mem (hapart.newline field hfield)

theorem AreApartFrom.readsVersion_eq (hapart : markers.AreApartFrom body.statements)
    (hapart' : markers.AreApartFrom renamed.statements) (h : 0 < body.size)
    (h' : 0 < renamed.size) (hplain : renamed.plain = body.plain) :
    markers.readsVersion renamed = markers.readsVersion body := by
  rw [Bool.eq_iff_iff, hapart.readsVersion_iff h, hapart'.readsVersion_iff h', hplain]

end GuardMarkers

/-! ## §5. When the version is read. -/

namespace Analysis

open Body

/-- The texts without labels of the bodies that operations take in. -/
def plainOf (config : AnalysisConfig) (ops : List Operation) : List (List String) :=
  (intakesOf config ops).map (·.entry.body.plain)

/-- Fields are apart from the labels of all bodies that operations take in, each of which has
a statement. -/
def AreApart (config : AnalysisConfig) (ops : List Operation) : Prop :=
  ∀ i ∈ intakesOf config ops,
    0 < i.entry.body.size ∧ config.markers.AreApartFrom i.entry.body.statements

variable {config : AnalysisConfig} {ops : List Operation}

theorem readsVersion_performed (config : AnalysisConfig) (ops : List Operation) :
    (performed config ops).finish.usage.readsVersion = true
      ↔ ∃ i ∈ intakesOf config ops, config.markers.readsVersion i.entry.body = true := by
  show (performed config ops).usage.readsVersion = true ↔ _
  rw [performed_eq, readsVersion_taken]

theorem AreApart.readsVersion_iff (h : AreApart config ops) :
    (performed config ops).finish.usage.readsVersion = true
      ↔ ∃ texts ∈ plainOf config ops, config.markers.OccurInSome texts := by
  unfold plainOf
  rw [readsVersion_performed]
  simp only [List.mem_map, exists_exists_and_eq_and]
  refine exists_congr fun i => and_congr_right fun hi => ?_
  exact (h i hi).2.readsVersion_iff (h i hi).1

/-- A body counts as one that reads the version just if a field occurs in a statement without
its label, reaches into a label that a statement names, or runs over the end of a statement.
An application counts as one just if some body does.

Other names for the labels leave the statements without them as they are.  So if the fields
are apart from the labels, a body with other names counts the same; and an application reads
the version just if some body has a field in a statement without its label, whatever the
names are. -/
theorem readsVersion_where (config : AnalysisConfig) :
    (∀ body : Body, 0 < body.size →
      (config.markers.readsVersion body = true
        ↔ ∃ field ∈ config.markers.versionFields,
            (∃ text ∈ body.plain, field.toList <:+: text.toList)
            ∨ (∃ s ∈ body.statements, s.ReachesLabel field.toList)
            ∨ Text.RunsOver field.toList (body.statements.map (·.render.toList)))
      ∧ (config.markers.AreApartFrom body.statements →
          (config.markers.readsVersion body = true
            ↔ config.markers.OccurInSome body.plain)))
    ∧ (∀ signature stmts ρ body renamed, build signature stmts = .ok body →
        build signature (stmts.map (·.rename ρ)) = .ok renamed →
        renamed.plain = body.plain
        ∧ (config.markers.AreApartFrom body.statements →
            config.markers.AreApartFrom renamed.statements →
            config.markers.readsVersion renamed = config.markers.readsVersion body))
    ∧ (∀ ops,
        ((performed config ops).finish.usage.readsVersion = true
          ↔ ∃ i ∈ intakesOf config ops, config.markers.readsVersion i.entry.body = true)
        ∧ (AreApart config ops →
          ((performed config ops).finish.usage.readsVersion = true
            ↔ ∃ texts ∈ plainOf config ops, config.markers.OccurInSome texts)
          ∧ ∀ ops', AreApart config ops' → plainOf config ops' = plainOf config ops →
              (performed config ops').finish.usage.readsVersion
                = (performed config ops).finish.usage.readsVersion)) := by
  refine ⟨fun body hsize => ⟨?_, fun hapart => hapart.readsVersion_iff hsize⟩, ?_, ?_⟩
  · unfold GuardMarkers.readsVersion
    rw [GuardMarkers.marksVersion_iff]
    simp only [Body.infix_render_iff hsize]
  · intro signature stmts ρ body renamed hbody hrenamed
    have hplain := plain_of_build hbody hrenamed
    exact ⟨hplain, fun hapart hapart' => hapart.readsVersion_eq hapart'
      (size_pos_of_build hbody) (size_pos_of_build hrenamed) hplain⟩
  · intro ops
    refine ⟨readsVersion_performed config ops, fun hapart => ⟨hapart.readsVersion_iff, ?_⟩⟩
    intro ops' hapart' hplain
    rw [Bool.eq_iff_iff, hapart.readsVersion_iff, hapart'.readsVersion_iff, hplain]

/-- One body is entered. -/
theorem areApart_enter {hierarchy : Hierarchy} {table : LifetimeTable} {isPrimary : Bool}
    {body : Body} (hsize : 0 < body.size)
    (hapart : config.markers.AreApartFrom body.statements) :
    AreApart config [.enter hierarchy table isPrimary body] := by
  intro i hi
  obtain rfl : i = ⟨hierarchy, table, isPrimary, body⟩ := List.mem_singleton.mp hi
  exact ⟨hsize, hapart⟩

/-- The method that retries reads the version, and does so with other labels. -/
theorem readsVersion_where_retry :
    ∃ renamed,
      build "<app.Main: void retry()>" (retryStatements.map (·.rename (· ++ "1"))) = .ok renamed
      ∧ renamed.plain = retryBody.plain
      ∧ ({} : GuardMarkers).AreApartFrom retryBody.statements
      ∧ ({} : GuardMarkers).AreApartFrom renamed.statements
      ∧ ({} : GuardMarkers).readsVersion retryBody = true
      ∧ ({} : GuardMarkers).readsVersion renamed = true
      ∧ (performed {} [.enter ∅ ∅ true retryBody]).finish.usage.readsVersion = true
      ∧ (performed {} [.enter ∅ ∅ true renamed]).finish.usage.readsVersion = true := by
  obtain ⟨hbody, hrename, happlication⟩ := readsVersion_where {}
  have hρ : Set.InjOn (· ++ "1") (labelSet retryStatements) := by
    intro a _ b _ heq
    simpa using heq
  obtain ⟨_, hne, hdistinct, hknown, _⟩ := of_build build_retryStatements
  obtain ⟨renamed, hrenamed⟩ := exists_build_eq_ok_iff.mpr
    ⟨(List.map_eq_nil_iff (f := (·.rename (· ++ "1")))).not.mpr hne,
      (areDistinct_rename_iff hρ).mpr hdistinct, (areKnown_rename_iff hρ).mpr hknown⟩
  have hapart : ({} : GuardMarkers).AreApartFrom retryBody.statements :=
    GuardMarkers.areApartFrom_default (by decide)
  have hapart' : ({} : GuardMarkers).AreApartFrom renamed.statements := by
    rw [statements_of_build hrenamed]
    exact GuardMarkers.areApartFrom_default (by decide)
  have hread : ({} : GuardMarkers).OccurInSome retryBody.plain := by
    unfold GuardMarkers.OccurInSome
    decide +kernel
  obtain ⟨hplain, hsame⟩ := hrename _ _ _ _ _ build_retryStatements hrenamed
  have hflag := ((hbody retryBody (by decide)).2 hapart).mpr hread
  obtain ⟨hreads, hreads'⟩ :=
    (happlication [.enter ∅ ∅ true retryBody]).2 (areApart_enter (by decide) hapart)
  have hflag' := hreads.mpr ⟨_, List.mem_singleton_self _, hread⟩
  refine ⟨renamed, hrenamed, hplain, hapart, hapart', hflag, (hsame hapart hapart').trans hflag,
    hflag', (hreads' [.enter ∅ ∅ true renamed] ?_ ?_).trans hflag'⟩
  · exact areApart_enter (size_pos_of_build hrenamed) hapart'
  · exact congrArg (fun texts => [texts]) hplain

/-- The statements of a method that goes to its end by a label. -/
def jumpStatements (label : String) : List LabeledStatement :=
  [⟨none, .goto label⟩, ⟨some label, .ret none⟩]

/-- The body of these statements. -/
def jumpBody (label : String) : Body where
  signature := "<app.Main: void run()>"
  steps := #[⟨.goto label, .jump 1⟩, ⟨.ret none, .stop⟩]
  target_lt := by simp [Flow.target?]
  flow_fits := by simp [Flow.fits]

/-- The two statements make a body whatever the label is called. -/
theorem build_jumpStatements (label : String) :
    build "<app.Main: void run()>" (jumpStatements label) = .ok (jumpBody label) := by
  have hplace : placeOf? (jumpStatements label) label = some 1 := by
    simp [placeOf?, jumpStatements, List.findIdx?_cons]
  have hresolve : resolve (placeOf? (jumpStatements label)) (jumpStatements label)
      = .ok [⟨.goto label, .jump 1⟩, ⟨.ret none, .stop⟩] := by
    generalize placeOf? (jumpStatements label) = place at hplace
    simp only [jumpStatements, resolve, flowOf, hplace]
    rfl
  have hdistinct : firstRepeated [] (labels (jumpStatements label)) = none := by
    simp [labels, jumpStatements, firstRepeated]
  have hne : jumpStatements label ≠ [] := List.cons_ne_nil _ _
  unfold build
  rw [if_neg hne]
  split
  next heq => cases hdistinct.symm.trans heq
  next =>
      split
      next heq => cases hresolve.symm.trans heq
      next heq =>
          cases hresolve.symm.trans heq
          rfl

theorem eq_of_mem_labelSet_jump {name label : String}
    (h : name ∈ labelSet (jumpStatements label)) : name = label := by
  obtain ⟨s, hs, hlabel⟩ := mem_labelSet_iff.mp h
  rcases List.mem_pair.mp hs with rfl | rfl
  · rcases hlabel with hlabel | hlabel <;> cases hlabel
    rfl
  · rcases hlabel with hlabel | hlabel <;> cases hlabel
    rfl

/-- A label that has the name of a field is taken for it: no statement has a field without its
label, but the body and the application count as ones that read the version.  With another
name for the label they do not. -/
theorem reads_label :
    build "<app.Main: void run()>" (jumpStatements versionNumberField)
        = .ok (jumpBody versionNumberField)
    ∧ ¬ ({} : GuardMarkers).OccurInSome (jumpBody versionNumberField).plain
    ∧ ({} : GuardMarkers).readsVersion (jumpBody versionNumberField) = true
    ∧ (performed {} [.enter ∅ ∅ true (jumpBody versionNumberField)]).finish.usage.readsVersion
        = true
    ∧ Set.InjOn (fun _ => "end") (labelSet (jumpStatements versionNumberField))
    ∧ build "<app.Main: void run()>"
          ((jumpStatements versionNumberField).map (·.rename fun _ => "end"))
        = .ok (jumpBody "end")
    ∧ ({} : GuardMarkers).readsVersion (jumpBody "end") = false
    ∧ (performed {} [.enter ∅ ∅ true (jumpBody "end")]).finish.usage.readsVersion = false := by
  refine ⟨build_jumpStatements _, ?_, by decide +kernel, by decide +kernel, ?_,
    build_jumpStatements "end", by decide +kernel, by decide +kernel⟩
  · unfold GuardMarkers.OccurInSome
    decide +kernel
  · intro a ha b hb _
    rw [eq_of_mem_labelSet_jump ha, eq_of_mem_labelSet_jump hb]

end Analysis

end ApiGuard
