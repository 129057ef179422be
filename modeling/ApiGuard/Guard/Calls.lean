/-
  ApiGuard.Guard.Calls
  ────────────────────
  Recording the calls of a body in a call graph, under the conditions by which
  they are guarded.

  A call that is dispatched on the class of its receiver may run the method of
  any subclass, so the edges to those get the conditions of the edge to the
  declared method.
-/
import ApiGuard.CallGraph.Basic
import ApiGuard.Guard.Walk

namespace ApiGuard

/-- The subtypes of each class, itself included. -/
abbrev Subtyping := String → SortedSet String

/-- May a subclass of the declared class have another method for the call? -/
def Invocation.isOverridable (call : Invocation) : Bool :=
  call.kind.isDispatched && !call.isPrivate

/-- The same method in every other subclass of its class. -/
def overridesOf (subtypes : Subtyping) (callee : String) : List String :=
  let className := Signature.declaringClass callee
  if className = "" then []
  else ((subtypes className).toList.filter (· ≠ className)).map (Signature.inClass callee)

namespace CallGraph

/-- Add conditions to the edge of an arc and store it. -/
def extendArc (g : CallGraph) (arc : Arc) (cs : Conditions) : CallGraph :=
  let (g, id) := g.intern arc
  ((g.extend id cs).add id).1

/-- Record a call from `caller`, and as many to overrides of the called method as
there are. -/
def recordCall (g : CallGraph) (subtypes : Subtyping) (caller : String) (call : Invocation)
    (c : PathCondition) : CallGraph :=
  let (g, id) := g.record ⟨caller, call.method⟩ c
  if call.isOverridable then
    (overridesOf subtypes call.method).foldl
      (fun h target => h.extendArc ⟨caller, target⟩ (g.conditionsOf id)) g
  else g

/-- Record the calls of a body. -/
def recordBody (g : CallGraph) (subtypes : Subtyping) (markers : GuardMarkers) (body : Body) :
    CallGraph :=
  (Walk.calls markers body).foldl
    (fun g (call, c) => g.recordCall subtypes body.signature call c) g

end CallGraph

end ApiGuard
