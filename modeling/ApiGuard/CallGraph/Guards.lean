/-
  ApiGuard.CallGraph.Guards
  ─────────────────────────
  The guards on the ways to a method.
-/
import ApiGuard.CallGraph.Basic
import ApiGuard.Search

namespace ApiGuard.CallGraph

/-- The numbers of the stored edges to the source of an edge. -/
def preceding (g : CallGraph) (id : Nat) : List Nat :=
  match g.edges[id]? with
  | some e => g.idsInto e.source
  | none => []

/-- The numbers of the stored edges on the ways to a method, nearest first. -/
def leadingIds (g : CallGraph) (method : String) : List Nat :=
  Search.search g.preceding (List.range g.edges.size) (g.idsInto method)

/-- The conditions of the guarded edges on the ways to a method, nearest first
and each once.  There are none if no way to the method is guarded. -/
def guardsLeadingTo (g : CallGraph) (method : String) : List Conditions :=
  (((g.edgesOf (g.leadingIds method)).filter Edge.isGuarded).map (·.conditions)).eraseDups

end ApiGuard.CallGraph
