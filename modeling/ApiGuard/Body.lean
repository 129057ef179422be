/-
  ApiGuard.Body
  ─────────────
  Method bodies: statements with the flow of control between them.

  `Body.build` replaces the labels that jumps name by the places of the
  statements that bear them.  A statement is known by its place from then on.
-/
import ApiGuard.Statement

namespace ApiGuard

/-- Where control goes from a statement. -/
inductive Flow where
  /-- To the given place or to the next statement. -/
  | branch (target : Nat)
  /-- To the given place. -/
  | jump (target : Nat)
  /-- Out of the method. -/
  | stop
  /-- To the next statement. -/
  | next
  deriving DecidableEq, Repr

/-- The place that the flow names. -/
def Flow.target? : Flow → Option Nat
  | .branch target => some target
  | .jump target => some target
  | .stop | .next => none

/-- Is the flow of a kind that the statement may have? -/
def Flow.fits : Flow → Statement → Bool
  | .branch _, .branch _ _ | .jump _, .goto _ => true
  | .stop, .ret _ | .stop, .throw _ => true
  | .next, .assign _ _ | .next, .invoke _ | .next, .nop => true
  | _, _ => false

/-- A statement and where control goes from it. -/
structure Step where
  statement : Statement
  flow : Flow
  deriving DecidableEq, Repr

/-- The body of a method. -/
structure Body where
  /-- The signature of the method. -/
  signature : String
  /-- The statements, in order. -/
  steps : Array Step
  /-- Control only goes to places of the body. -/
  target_lt : ∀ step ∈ steps, ∀ i ∈ step.flow.target?, i < steps.size
  /-- Control goes where the statements send it. -/
  flow_fits : ∀ step ∈ steps, step.flow.fits step.statement = true

/-- Why a list of statements is no body. -/
inductive BodyError where
  /-- There is no statement. -/
  | empty (method : String)
  /-- Two statements bear the label. -/
  | duplicateLabel (label method : String)
  /-- A jump names a label that no statement bears. -/
  | unknownLabel (label method : String)
  deriving DecidableEq, Repr

/-- The wording of an error. -/
def BodyError.message : BodyError → String
  | .empty method => "method " ++ method ++ " has no statement"
  | .duplicateLabel label method => "duplicate label '" ++ label ++ "' in method " ++ method
  | .unknownLabel label method => "unknown label '" ++ label ++ "' in method " ++ method

namespace Body

/-! ## §1. Labels. -/

/-- The labels that statements bear, in order. -/
def labels (stmts : List LabeledStatement) : List String := stmts.filterMap (·.label)

/-- The first element that occurs in `seen` or before its place in the list. -/
def firstRepeated (seen : List String) : List String → Option String
  | [] => none
  | a :: rest => if a ∈ seen then some a else firstRepeated (a :: seen) rest

/-- The place of the statement that bears the label. -/
def placeOf? (stmts : List LabeledStatement) (label : String) : Option Nat :=
  stmts.findIdx? (·.label == some label)

theorem placeOf?_lt {stmts : List LabeledStatement} {label : String} {i : Nat}
    (h : placeOf? stmts label = some i) : i < stmts.length :=
  (List.findIdx?_eq_some_iff_getElem.mp h).1

/-- Where control goes from a statement, given the places of the labels; if the
label it jumps to has none, that label. -/
def flowOf (place : String → Option Nat) : Statement → Except String Flow
  | .branch _ label =>
    match place label with
    | some i => .ok (.branch i)
    | none => .error label
  | .goto label =>
    match place label with
    | some i => .ok (.jump i)
    | none => .error label
  | .ret _ | .throw _ => .ok .stop
  | .assign _ _ | .invoke _ | .nop => .ok .next

/-- Each statement with its flow, or the first label without a place. -/
def resolve (place : String → Option Nat) : List LabeledStatement → Except String (List Step)
  | [] => .ok []
  | s :: rest => do
    let flow ← flowOf place s.statement
    let steps ← resolve place rest
    return ⟨s.statement, flow⟩ :: steps

/-- A flow that leads to a place leads to that of a label. -/
theorem place_of_flowOf {place : String → Option Nat} {s : Statement} {flow : Flow}
    (h : flowOf place s = .ok flow) {i : Nat} (hi : flow.target? = some i) :
    ∃ label, place label = some i := by
  cases s with
  | branch _ label =>
    simp only [flowOf] at h
    split at h
    next j hj => cases h; cases hi; exact ⟨label, hj⟩
    next => cases h
  | goto label =>
    simp only [flowOf] at h
    split at h
    next j hj => cases h; cases hi; exact ⟨label, hj⟩
    next => cases h
  | assign | invoke | ret | throw | nop => cases h; cases hi

theorem fits_of_flowOf {place : String → Option Nat} {s : Statement} {flow : Flow}
    (h : flowOf place s = .ok flow) : flow.fits s = true := by
  cases s with
  | branch _ label | goto label =>
    simp only [flowOf] at h
    split at h
    next => cases h; rfl
    next => cases h
  | assign | invoke | ret | throw | nop => cases h; rfl

/-- Resolving keeps the statements and goes only to places of labels. -/
theorem of_resolve {place : String → Option Nat} :
    ∀ {stmts : List LabeledStatement} {steps : List Step}, resolve place stmts = .ok steps →
      steps.map (·.statement) = stmts.map (·.statement) ∧
        ∀ step ∈ steps, step.flow.fits step.statement = true ∧
          ∀ i, step.flow.target? = some i → ∃ label, place label = some i
  | [], steps, h => by cases h; simp
  | s :: rest, steps, h => by
    simp only [resolve] at h
    cases hf : flowOf place s.statement with
    | error label => rw [hf] at h; cases h
    | ok flow =>
      cases hr : resolve place rest with
      | error label => rw [hf, hr] at h; cases h
      | ok tail =>
        rw [hf, hr] at h
        cases h
        obtain ⟨hmap, hsteps⟩ := of_resolve hr
        refine ⟨by simp [hmap], fun step hstep => ?_⟩
        rcases List.mem_cons.mp hstep with rfl | hstep
        · exact ⟨fits_of_flowOf hf, fun i hi => place_of_flowOf hf hi⟩
        · exact hsteps step hstep

theorem lt_of_resolve {stmts : List LabeledStatement} {steps : List Step}
    (h : resolve (placeOf? stmts) stmts = .ok steps) :
    ∀ step ∈ steps.toArray, ∀ i ∈ step.flow.target?, i < steps.toArray.size := by
  intro step hstep i hi
  obtain ⟨hmap, hsteps⟩ := of_resolve h
  obtain ⟨label, hlabel⟩ := (hsteps step (List.mem_toArray.mp hstep)).2 i hi
  have hlen : steps.length = stmts.length := by
    simpa using congrArg List.length hmap
  rw [List.size_toArray, hlen]
  exact placeOf?_lt hlabel

theorem fits_of_resolve {place : String → Option Nat} {stmts : List LabeledStatement}
    {steps : List Step} (h : resolve place stmts = .ok steps) :
    ∀ step ∈ steps.toArray, step.flow.fits step.statement = true :=
  fun step hstep => ((of_resolve h).2 step (List.mem_toArray.mp hstep)).1

/-! ## §2. Construction. -/

/-- The body of the given method with the given statements.  Labels that occur
twice are found before labels that do not occur. -/
def build (signature : String) (stmts : List LabeledStatement) : Except BodyError Body :=
  if stmts = [] then .error (.empty signature)
  else
    match firstRepeated [] (labels stmts) with
    | some label => .error (.duplicateLabel label signature)
    | none =>
      match h : resolve (placeOf? stmts) stmts with
      | .error label => .error (.unknownLabel label signature)
      | .ok steps => .ok ⟨signature, steps.toArray, lt_of_resolve h, fits_of_resolve h⟩

/-! ## §3. Flow of control. -/

/-- The number of statements. -/
def size (body : Body) : Nat := body.steps.size

/-- The statement at a place. -/
def statement? (body : Body) (i : Nat) : Option Statement :=
  body.steps[i]?.map (·.statement)

/-- The flow at a place. -/
def flow? (body : Body) (i : Nat) : Option Flow :=
  body.steps[i]?.map (·.flow)

/-- The place after `i`, if there is a statement. -/
def next? (body : Body) (i : Nat) : Option Nat :=
  if i + 1 < body.size then some (i + 1) else none

/-- The places to which control may go from `i`, in increasing order. -/
def successors (body : Body) (i : Nat) : List Nat :=
  match body.flow? i with
  | none | some .stop => []
  | some .next => (body.next? i).toList
  | some (.jump target) => [target]
  | some (.branch target) =>
    match body.next? i with
    | none => [target]
    | some next =>
      if target < next then [target, next]
      else if target = next then [next]
      else [next, target]

/-- The place to which control goes from `i` if the condition there holds. -/
def branchTarget? (body : Body) (i : Nat) : Option Nat :=
  match body.flow? i with
  | some (.branch target) => some target
  | _ => none

/-- The places where control may come in: the first one, and those to which it
goes from no other (such as exception handlers). -/
def entries (body : Body) : List Nat :=
  let entered := (List.range body.size).flatMap body.successors
  (List.range body.size).filter fun i => i = 0 || !entered.contains i

/-! ## §4. Text. -/

/-- The text of the body, a line for each statement. -/
def render (body : Body) : String :=
  String.join (body.steps.toList.map fun step => step.statement.render ++ "\n")

end Body

end ApiGuard
