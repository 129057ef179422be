/-
  ApiGuard.Proofs.Bundle.Loading
  ──────────────────────────────
  Loading a bundle from its document.

  A document without units is no bundle, and one with a method whose statements make no body
  is none either; the error is then one of the first unit with such a method.  Any other
  document loads, unit by unit, with one body for each method that has statements:

      load_eq_ok_iff               what a unit is loaded as
      ofDocument_eq_ok_iff         a document loads if all its units do
      first_fault_of_ofDocument    otherwise the error is one of the first unit that does not
-/
import ApiGuard.Bundle
import ApiGuard.Proofs.Body.Faults

namespace ApiGuard

/-! ## §1. What units hold. -/

/-- The statements are no body: there is none, a label is repeated, or one is unknown. -/
def MethodDecl.IsFaulty (m : MethodDecl) : Prop :=
  ∃ stmts, m.body = some stmts
    ∧ (stmts = [] ∨ (∃ i label, Body.IsRepeated stmts i label)
        ∨ ∃ i label, Body.IsUnknown stmts i label)

/-- The body is what is built of the statements of the method. -/
def MethodDecl.Makes (m : MethodDecl) (body : Body) : Prop :=
  ∃ stmts, m.body = some stmts ∧ Body.build m.signature stmts = .ok body

/-- The error is the fault of the statements of the method. -/
def MethodDecl.HasFault (m : MethodDecl) (e : BodyError) : Prop :=
  ∃ stmts, m.body = some stmts ∧ Body.IsFault m.signature stmts e

/-- Faulty statements are those from which no body is built. -/
theorem MethodDecl.isFaulty_iff {m : MethodDecl} :
    m.IsFaulty
      ↔ ∃ stmts, m.body = some stmts ∧ ¬ ∃ body, Body.build m.signature stmts = .ok body := by
  unfold IsFaulty
  refine exists_congr fun stmts => and_congr_right fun _ => ?_
  rw [Body.exists_build_eq_ok_iff, Body.areDistinct_iff, Body.areKnown_iff, not_and_or,
    not_and_or, not_not, not_not, not_not]

namespace UnitDecl

/-- The methods of a unit, class by class. -/
def methods (u : UnitDecl) : List MethodDecl := u.classes.flatMap (·.methods)

/-- What a unit is loaded as: its classes in order, and one body for each method that has
statements, in the order of the methods. -/
structure LoadsAs (u : UnitDecl) (loaded : BytecodeUnit) : Prop where
  name : loaded.name = u.name
  classes : loaded.classes = u.classes.map ClassDecl.withoutBodies
  bodies : List.Forall₂ MethodDecl.Makes (u.methods.filter (·.body.isSome)) loaded.bodies

variable {u : UnitDecl} {e : BodyError}

/-! ## §2. Loading a unit. -/

/-- Written are the methods of the classes of the unit that have statements. -/
theorem mem_written_iff {signature : String} {stmts : List LabeledStatement} :
    (signature, stmts) ∈ u.written
      ↔ ∃ m ∈ u.methods, m.body = some stmts ∧ m.signature = signature := by
  unfold written methods
  rw [List.mem_filterMap]
  refine exists_congr fun m => and_congr_right fun _ => ?_
  rw [Option.map_eq_some_iff]
  constructor
  · intro hwritten
    obtain ⟨_, hbody, heq⟩ := hwritten
    obtain ⟨rfl, rfl⟩ := Prod.mk.inj heq
    exact ⟨hbody, rfl⟩
  · intro hwritten
    obtain ⟨hbody, rfl⟩ := hwritten
    exact ⟨stmts, hbody, rfl⟩

/-- The bodies of what is written are those that the methods with statements make. -/
theorem forall₂_written (ms : List MethodDecl) :
    ∀ {bodies : List Body},
      List.Forall₂ (fun (p : String × List LabeledStatement) body =>
          Body.build p.1 p.2 = .ok body)
        (ms.filterMap fun m => m.body.map (m.signature, ·)) bodies
      ↔ List.Forall₂ MethodDecl.Makes (ms.filter (·.body.isSome)) bodies := by
  induction ms with
  | nil =>
      intro bodies
      simp
  | cons m rest ih =>
      intro bodies
      cases hbody : m.body with
      | none =>
          -- the method is abstract or native
          rw [List.filterMap_cons_none (by rw [hbody]; rfl),
            List.filter_cons_of_neg (by simp [hbody])]
          exact ih
      | some stmts =>
          rw [List.filterMap_cons_some (by rw [hbody]; rfl),
            List.filter_cons_of_pos (by simp [hbody]), List.forall₂_cons_left_iff,
            List.forall₂_cons_left_iff]
          have hmakes : ∀ body, m.Makes body ↔ Body.build m.signature stmts = .ok body := by
            intro body
            unfold MethodDecl.Makes
            rw [hbody]
            simp
          simp only [ih, hmakes]

theorem load_eq_map (u : UnitDecl) :
    u.load = (u.written.mapM fun p => Body.build p.1 p.2).map
      fun bodies => ⟨u.name, u.classes.map ClassDecl.withoutBodies, bodies⟩ := by
  unfold load
  cases u.written.mapM fun p : String × List LabeledStatement => Body.build p.1 p.2 <;> rfl

/-- A unit loads as what it holds. -/
theorem load_eq_ok_iff {loaded : BytecodeUnit} : u.load = .ok loaded ↔ u.LoadsAs loaded := by
  have hbodies : ∀ bodies : List Body,
      (u.written.mapM fun p => Body.build p.1 p.2) = .ok bodies
        ↔ List.Forall₂ MethodDecl.Makes (u.methods.filter (·.body.isSome)) bodies := by
    intro bodies
    rw [Traversal.mapM_eq_ok_iff]
    exact forall₂_written u.methods
  rw [load_eq_map]
  constructor
  · intro hload
    cases hall : u.written.mapM fun p => Body.build p.1 p.2 with
    | error e => rw [hall] at hload; cases hload
    | ok bodies =>
        rw [hall] at hload
        cases hload
        exact ⟨rfl, rfl, (hbodies bodies).mp hall⟩
  · intro hloads
    obtain ⟨name, classes, bodies⟩ := loaded
    obtain ⟨rfl, rfl, hmakes⟩ := hloads
    rw [(hbodies bodies).mpr hmakes]
    rfl

/-- The error of a unit is that of its statements. -/
theorem load_eq_error_iff :
    u.load = .error e ↔ (u.written.mapM fun p => Body.build p.1 p.2) = .error e := by
  rw [load_eq_map]
  cases u.written.mapM fun p => Body.build p.1 p.2 <;> simp [Except.map]

/-- The error of a unit is the fault of a method. -/
theorem exists_hasFault_of_load (h : u.load = .error e) : ∃ m ∈ u.methods, m.HasFault e := by
  obtain ⟨_, ⟨signature, stmts⟩, hp, hfails, _⟩ :=
    Traversal.mapM_eq_error_iff.mp (load_eq_error_iff.mp h)
  obtain ⟨m, hm, hbody, rfl⟩ := mem_written_iff.mp (List.mem_of_getElem? hp)
  exact ⟨m, hm, stmts, hbody, Body.build_eq_error_iff.mp hfails⟩

/-- A unit loads just if it has no faulty method. -/
theorem exists_load_eq_ok_iff :
    (∃ loaded, u.load = .ok loaded) ↔ ∀ m ∈ u.methods, ¬ m.IsFaulty := by
  have hload : (∃ loaded, u.load = .ok loaded)
      ↔ ∃ bodies, (u.written.mapM fun p => Body.build p.1 p.2) = .ok bodies := by
    rw [load_eq_map]
    cases u.written.mapM fun p => Body.build p.1 p.2 <;> simp [Except.map]
  rw [hload, Traversal.exists_mapM_eq_ok_iff]
  constructor
  · intro hall m hm hfaulty
    obtain ⟨stmts, hbody, hnone⟩ := MethodDecl.isFaulty_iff.mp hfaulty
    exact hnone (hall (m.signature, stmts) (mem_written_iff.mpr ⟨m, hm, hbody, rfl⟩))
  · intro hnone p hp
    obtain ⟨m, hm, hbody, hsignature⟩ := mem_written_iff.mp hp
    by_contra hnot
    rw [← hsignature] at hnot
    exact hnone m hm (MethodDecl.isFaulty_iff.mpr ⟨p.2, hbody, hnot⟩)

end UnitDecl

/-! ## §3. Loading a document. -/

namespace Bundle

variable {d : BundleDocument}

/-- The units are loaded in order, and the first of them becomes the one with the main
code. -/
theorem ofDocument_eq (d : BundleDocument) :
    ofDocument d
      = match d.units.mapM UnitDecl.load with
        | .error fault => .error (.body fault)
        | .ok [] => .error (.noUnit d.name)
        | .ok (primary :: secondary) => .ok ⟨d.name, d.manifest, primary, secondary⟩ := by
  unfold ofDocument
  cases d.units with
  | nil => rfl
  | cons first rest =>
      rw [List.mapM_cons]
      dsimp only
      cases first.load with
      | error fault => rfl
      | ok loaded => cases rest.mapM UnitDecl.load <;> rfl

/-- A document has no unit just if that is its error. -/
theorem ofDocument_eq_noUnit_iff {name : String} :
    ofDocument d = .error (.noUnit name) ↔ d.units = [] ∧ name = d.name := by
  rw [ofDocument_eq]
  cases hload : d.units.mapM UnitDecl.load with
  | error fault =>
      refine iff_of_false (fun h => by cases h) (fun hnil => ?_)
      rw [hnil.1] at hload
      cases hload
  | ok loaded =>
      have hlength : d.units.length = loaded.length :=
        (Traversal.mapM_eq_ok_iff.mp hload).length_eq
      cases loaded with
      | nil =>
          have hnil : d.units = [] := List.length_eq_zero_iff.mp hlength
          show (Except.error (.noUnit d.name) : Except BundleError Bundle) = .error (.noUnit name)
            ↔ _
          rw [Except.error.injEq, BundleError.noUnit.injEq, and_iff_right hnil, eq_comm]
      | cons primary secondary =>
          refine iff_of_false (fun h => by cases h) (fun hnil => ?_)
          rw [hnil.1] at hlength
          cases hlength

/-- A document loads if it has a unit and all its units load. -/
theorem ofDocument_eq_ok_iff {b : Bundle} :
    ofDocument d = .ok b
      ↔ b.name = d.name ∧ b.manifest = d.manifest
        ∧ List.Forall₂ UnitDecl.LoadsAs d.units b.units := by
  have hloads : ∀ loaded, d.units.mapM UnitDecl.load = .ok loaded
      ↔ List.Forall₂ UnitDecl.LoadsAs d.units loaded := by
    intro loaded
    rw [Traversal.mapM_eq_ok_iff]
    simp only [UnitDecl.load_eq_ok_iff]
  rw [← hloads, ofDocument_eq]
  obtain ⟨name, manifest, primary, secondary⟩ := b
  unfold units
  cases d.units.mapM UnitDecl.load with
  | error fault => simp
  | ok loaded =>
      cases loaded with
      | nil => simp
      | cons first rest => simp [eq_comm]

/-- The other errors are those of the units. -/
theorem ofDocument_eq_body_iff {fault : BodyError} :
    ofDocument d = .error (.body fault) ↔ d.units.mapM UnitDecl.load = .error fault := by
  rw [ofDocument_eq]
  cases d.units.mapM UnitDecl.load with
  | error fault' => simp
  | ok loaded => cases loaded <;> simp

/-- A document that was read is not malformed. -/
theorem ofDocument_ne_json : ofDocument d ≠ .error .json := by
  rw [ofDocument_eq]
  cases d.units.mapM UnitDecl.load with
  | error fault => simp
  | ok loaded => cases loaded <;> simp

/-- The error of a document with units is a fault of the first unit that has one. -/
theorem first_fault_of_ofDocument (hne : d.units ≠ []) {e : BundleError}
    (h : ofDocument d = .error e) :
    ∃ (fault : BodyError) (i : Nat) (u : UnitDecl), e = .body fault ∧ d.units[i]? = some u
      ∧ (∃ m ∈ u.methods, m.HasFault fault)
      ∧ ∀ j < i, ∀ v, d.units[j]? = some v → ∀ m ∈ v.methods, ¬ m.IsFaulty := by
  cases e with
  | json => exact absurd h ofDocument_ne_json
  | noUnit name => exact absurd (ofDocument_eq_noUnit_iff.mp h).1 hne
  | body fault =>
      obtain ⟨i, u, hu, hfails, hbefore⟩ :=
        Traversal.mapM_eq_error_iff.mp (ofDocument_eq_body_iff.mp h)
      exact ⟨fault, i, u, rfl, hu, UnitDecl.exists_hasFault_of_load hfails, fun j hj v hv =>
        UnitDecl.exists_load_eq_ok_iff.mp (hbefore j hj v hv)⟩

/-- A document with units loads just if no method of it is faulty. -/
theorem exists_ofDocument_eq_ok_iff (hne : d.units ≠ []) :
    (∃ b, ofDocument d = .ok b) ↔ ∀ u ∈ d.units, ∀ m ∈ u.methods, ¬ m.IsFaulty := by
  simp only [← UnitDecl.exists_load_eq_ok_iff]
  rw [← Traversal.exists_mapM_eq_ok_iff]
  cases hload : ofDocument d with
  | ok b =>
      obtain ⟨_, _, hloads⟩ := ofDocument_eq_ok_iff.mp hload
      have hunits : d.units.mapM UnitDecl.load = .ok b.units :=
        Traversal.mapM_eq_ok_iff.mpr (hloads.imp fun _ _ => UnitDecl.load_eq_ok_iff.mpr)
      exact iff_of_true ⟨b, rfl⟩ ⟨b.units, hunits⟩
  | error e =>
      obtain ⟨fault, _, _, rfl, _⟩ := first_fault_of_ofDocument hne hload
      rw [ofDocument_eq_body_iff.mp hload]
      simp

end Bundle

end ApiGuard
