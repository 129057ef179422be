/-
  ApiGuard.CallGraph.Basic
  ────────────────────────
  Calls between methods, with the conditions under which they happen.

  The edge from one method to another is created on first request and known by
  its number from then on, so that several calls between the same methods gather
  their conditions on one edge.  An edge becomes part of the graph once it is
  stored under its target; to store an edge whose ends are equal or empty has no
  effect.
-/
import ApiGuard.Condition
import ApiGuard.Order.Relation
import ApiGuard.Signature

namespace ApiGuard

open Std

/-! ## §1. Edges. -/

/-- A calling and a called method. -/
structure Arc where
  /-- The calling method. -/
  source : String
  /-- The called method. -/
  target : String
  deriving DecidableEq, Repr

namespace Arc

instance : Ord Arc := ⟨compareLex (compareOn source) (compareOn target)⟩

instance : TransOrd Arc :=
  inferInstanceAs (TransCmp (compareLex (compareOn source) (compareOn target)))

instance : LawfulEqOrd Arc where
  eq_of_compare {a b} h := by
    have h : compareLex (compareOn source) (compareOn target) a b = .eq := h
    rw [compareLex_eq_eq] at h
    have hs : a.source = b.source := LawfulEqOrd.eq_of_compare h.1
    have ht : a.target = b.target := LawfulEqOrd.eq_of_compare h.2
    cases a; cases b; simp_all

/-- Can a graph store the arc?  Both ends must be there and differ. -/
def isValid (a : Arc) : Bool := a.source ≠ "" && a.target ≠ "" && a.source ≠ a.target

end Arc

/-- A call with the conditions under which it happens. -/
structure Edge extends Arc where
  /-- The path conditions under which the call happens. -/
  conditions : Conditions := ∅
  deriving DecidableEq

namespace Edge

/-- Is the call guarded on some path? -/
def isGuarded (e : Edge) : Bool := e.conditions.isGuarded

/-- Write an edge as `CONDITIONS:SOURCE-->TARGET`. -/
def render (e : Edge) : String := e.conditions.render ++ ":" ++ e.source ++ "-->" ++ e.target

end Edge

/-! ## §2. The graph. -/

/-- A call graph. -/
structure CallGraph where
  /-- All edges ever requested, by number. -/
  edges : Array Edge := #[]
  /-- The number of the edge of each requested arc. -/
  numbers : SortedMap Arc Nat := ∅
  /-- The numbers of the stored edges, by target. -/
  stored : Relation String Nat := ∅
  /-- The ends of stored edges that are no constructors, by class. -/
  members : Relation String String := ∅
  deriving Inhabited

namespace CallGraph

instance : EmptyCollection CallGraph := ⟨{}⟩

/-- The number of the edge of an arc, which is created without conditions if it
was not requested before. -/
def intern (g : CallGraph) (arc : Arc) : CallGraph × Nat :=
  match g.numbers.find? arc with
  | some id => (g, id)
  | none =>
    ({ g with
        edges := g.edges.push { arc with }
        numbers := g.numbers.insert arc g.edges.size }, g.edges.size)

/-- The conditions of an edge. -/
def conditionsOf (g : CallGraph) (id : Nat) : Conditions :=
  (g.edges[id]?.map (·.conditions)).getD ∅

/-- Add a path condition to an edge; was it new? -/
def addCondition (g : CallGraph) (id : Nat) (c : PathCondition) : CallGraph × Bool :=
  ({ g with edges := g.edges.modify id fun e => { e with conditions := e.conditions.insert c } },
    !(g.conditionsOf id).contains c)

/-- Add path conditions to an edge. -/
def extend (g : CallGraph) (id : Nat) (cs : Conditions) : CallGraph :=
  { g with edges := g.edges.modify id fun e => { e with conditions := e.conditions.union cs } }

/-- Put an edge under its target; was it not there? -/
def store (g : CallGraph) (id : Nat) (target : String) : CallGraph × Bool :=
  ({ g with stored := g.stored.add target id }, !(g.stored.image target).contains id)

/-- Enter an end of a stored edge among the methods of its class. -/
def enterMethod (g : CallGraph) (method : String) : CallGraph :=
  if Signature.denotesConstructor method then g
  else { g with members := g.members.add (Signature.declaringClass method) method }

/-- Store an edge, unless its ends are equal or empty; is it stored? -/
def add (g : CallGraph) (id : Nat) : CallGraph × Bool :=
  match g.edges[id]? with
  | none => (g, false)
  | some e =>
    if e.isValid then
      (((g.store id e.target).1.enterMethod e.source).enterMethod e.target, true)
    else (g, false)

/-- Record a call under a path condition. -/
def record (g : CallGraph) (arc : Arc) (c : PathCondition) : CallGraph × Nat :=
  let (g, id) := g.intern arc
  (((g.addCondition id c).1.add id).1, id)

/-! ## §3. Stored edges. -/

/-- The numbers of the stored edges to a method, in increasing order. -/
def idsInto (g : CallGraph) (target : String) : List Nat :=
  (g.stored.image target).toList

/-- The numbers of all stored edges, by target and then in increasing order. -/
def storedIds (g : CallGraph) : List Nat := g.stored.values.flatMap SortedSet.toList

/-- The edges of the given numbers. -/
def edgesOf (g : CallGraph) (ids : List Nat) : List Edge := ids.filterMap fun id => g.edges[id]?

/-- The stored edges to a method. -/
def edgesInto (g : CallGraph) (target : String) : List Edge := g.edgesOf (g.idsInto target)

/-- All stored edges. -/
def storedEdges (g : CallGraph) : List Edge := g.edgesOf g.storedIds

/-- The stored edge of an arc. -/
def find? (g : CallGraph) (arc : Arc) : Option Edge := do
  let id ← g.numbers.find? arc
  if (g.stored.image arc.target).contains id then g.edges[id]? else none

/-- The number of stored edges. -/
def countEdges (g : CallGraph) : Nat := g.storedIds.length

/-- The methods at the ends of stored edges. -/
def methods (g : CallGraph) : SortedSet String :=
  .ofList (g.storedEdges.flatMap fun e => [e.source, e.target])

/-- The number of stored edges that are guarded. -/
def countGuarded (g : CallGraph) : Nat := g.storedEdges.countP Edge.isGuarded

/-! ## §4. Constructors. -/

/-- The arcs from each called constructor to the methods seen in its class. -/
def constructorArcs (g : CallGraph) : List Arc :=
  (g.stored.keys.filter Signature.denotesConstructor).flatMap fun ctor =>
    (g.members.image (Signature.declaringClass ctor)).toList.map fun method => ⟨ctor, method⟩

/-- Store the edge of an arc and make it unconditional, unless its ends are equal
or empty; was it not stored, or not unconditional? -/
def link (g : CallGraph) (arc : Arc) : CallGraph × Bool :=
  let (g, id) := g.intern arc
  if arc.isValid then
    let (g, unconditional) := g.addCondition id ∅
    let (g, stored) := g.store id arc.target
    (g, stored || unconditional)
  else (g, false)

/-- Link the arcs in order and count those for which something changed. -/
def linkAll (g : CallGraph) (arcs : List Arc) : CallGraph × Nat :=
  arcs.foldl (fun (g, n) arc =>
    let (g, changed) := g.link arc
    (g, if changed then n + 1 else n)) (g, 0)

/-- Who creates an object may call any of its methods: link each called
constructor to the methods seen in its class. -/
def linkConstructors (g : CallGraph) : CallGraph × Nat := g.linkAll g.constructorArcs

end CallGraph

end ApiGuard
