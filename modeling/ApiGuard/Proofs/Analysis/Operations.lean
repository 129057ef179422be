/-
  ApiGuard.Proofs.Analysis.Operations
  ───────────────────────────────────
  Analyses that operations lead to.

  Bodies are entered one by one or unit by unit, each time with the hierarchy and the table
  that are at hand then; what the analysis looks for stays the same.  Whatever the
  operations are, the analysis is known from the bodies taken in, in order:

      run_eq_performed                    the analysis of units is a case of this
      performed_eq                        operations take in their bodies, one by one
      exists_operation_of_mem_intakesOf   each with the table of its operation
-/
import ApiGuard.Proofs.Analysis.Runs

namespace ApiGuard.Analysis

/-! ## §1. Operations. -/

/-- What one may do in an analysis. -/
inductive Operation where
  /-- Enter a body. -/
  | enter (hierarchy : Hierarchy) (table : LifetimeTable) (isPrimary : Bool) (body : Body)
  /-- Enter the bodies of a unit that are not skipped. -/
  | enterUnit (hierarchy : Hierarchy) (table : LifetimeTable) (u : CodeUnit)

/-- The table at hand. -/
def Operation.table : Operation → LifetimeTable
  | .enter _ table _ _ => table
  | .enterUnit _ table _ => table

/-- The analysis after an operation. -/
def apply (config : AnalysisConfig) (a : Analysis) : Operation → Analysis
  | .enter hierarchy table isPrimary body => a.enter { hierarchy, table, config } isPrimary body
  | .enterUnit hierarchy table u => a.enterUnit { hierarchy, table, config } u.isPrimary u.bodies

/-- The analysis that operations lead to. -/
def performed (config : AnalysisConfig) (ops : List Operation) : Analysis :=
  ops.foldl (apply config) ∅

/-- The analysis of units is one that operations lead to. -/
theorem run_eq_performed (inputs : AnalysisInputs) (units : List CodeUnit) :
    run inputs units
      = (performed inputs.config
          (units.map (.enterUnit inputs.hierarchy inputs.table))).finish := by
  unfold run performed
  rw [List.foldl_map]
  rfl

/-! ## §2. Intakes. -/

/-- The bodies that an operation takes in. -/
def Operation.intakes (config : AnalysisConfig) : Operation → List Intake
  | .enter hierarchy table isPrimary body => [⟨hierarchy, table, isPrimary, body⟩]
  | .enterUnit hierarchy table u => (entriesOf config [u]).map (⟨hierarchy, table, ·⟩)

/-- The bodies that operations take in, in order. -/
def intakesOf (config : AnalysisConfig) (ops : List Operation) : List Intake :=
  ops.flatMap (Operation.intakes config)

variable {config : AnalysisConfig}

/-- Operations take in their bodies, one after the other. -/
theorem performed_eq (ops : List Operation) :
    performed config ops = taken config (intakesOf config ops) := by
  unfold performed taken intakesOf
  -- to take in the bodies of one operation is to perform it
  rw [List.foldl_flatMap]
  congr 1
  funext a op
  cases op with
  | enter hierarchy table isPrimary body => rfl
  | enterUnit hierarchy table u =>
      show _ = List.foldl _ a ((entriesOf config [u]).map _)
      unfold entriesOf
      rw [List.flatMap_singleton, List.map_map, List.foldl_map]
      rfl

/-- What is taken in comes with the table of its operation. -/
theorem exists_operation_of_mem_intakesOf {ops : List Operation} {i : Intake}
    (hi : i ∈ intakesOf config ops) : ∃ op ∈ ops, i.table = op.table := by
  obtain ⟨op, hop, hi⟩ := List.mem_flatMap.mp hi
  refine ⟨op, hop, ?_⟩
  cases op with
  | enter hierarchy table isPrimary body =>
      obtain rfl := List.mem_singleton.mp hi
      rfl
  | enterUnit hierarchy table u =>
      obtain ⟨_, _, rfl⟩ := List.mem_map.mp hi
      rfl

end ApiGuard.Analysis
