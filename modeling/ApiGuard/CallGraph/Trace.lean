/-
  ApiGuard.CallGraph.Trace
  ────────────────────────
  The callers of a method, their callers, and so on, as an indented trace in
  which each method is expanded once.
-/
import ApiGuard.CallGraph.Basic

namespace ApiGuard

/-- A line of a trace: a caller, and the conditions of the call that it is there
for. -/
structure TraceLine where
  /-- The number of calls between the caller and the method of the trace. -/
  depth : Nat
  caller : String
  conditions : Conditions
  deriving DecidableEq

/-- The callers of a method. -/
structure CallerTrace where
  method : String
  lines : List TraceLine
  deriving DecidableEq

namespace CallGraph

/-- The lines for the edges on the stack, given with their depths, and for all
that lead to their sources.  A source that is not in `unseen` has its line
already. -/
def unwind (g : CallGraph) (unseen : SortedSet String) : List (Nat × Nat) → List TraceLine
  | [] => []
  | (id, depth) :: stack =>
    match g.edges[id]? with
    | none => unwind g unseen stack
    | some e =>
      if e.source ∈ unseen then
        ⟨depth, e.source, e.conditions⟩ ::
          unwind g (unseen.erase e.source)
            ((g.idsInto e.source).map (·, depth + 1) ++ stack)
      else unwind g unseen stack
termination_by stack => (unseen.size, stack.length)
decreasing_by
  · exact .right _ (Nat.lt_succ_self _)
  · exact .left _ _ (SortedSet.size_erase_lt (by assumption))
  · exact .right _ (Nat.lt_succ_self _)

/-- The sources of all edges. -/
def sources (g : CallGraph) : SortedSet String := .ofList (g.edges.toList.map (·.source))

/-- The trace of the callers of a method. -/
def callerTrace (g : CallGraph) (method : String) : CallerTrace where
  method := method
  lines := g.unwind (g.sources.erase method) ((g.idsInto method).map (·, 0))

end CallGraph

/-- Write a line as `|--> CALLER [CONDITIONS]`, with two more dashes for each
level of depth. -/
def TraceLine.render (line : TraceLine) : String :=
  "|" ++ String.ofList (List.replicate (2 * (line.depth + 1)) '-') ++ "> " ++ line.caller
    ++ " " ++ line.conditions.render ++ "\n"

namespace CallerTrace

/-- Write a trace: the method, and a line for each caller. -/
def render (trace : CallerTrace) : String :=
  trace.method ++ "\n" ++ String.join (trace.lines.map TraceLine.render)

/-- Is the method one of the callers? -/
def contains (trace : CallerTrace) (caller : String) : Bool :=
  trace.lines.any (·.caller == caller)

end CallerTrace

end ApiGuard
