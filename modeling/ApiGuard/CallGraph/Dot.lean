/-
  ApiGuard.CallGraph.Dot
  ──────────────────────
  The call graph as a drawing in the dot language: a box for each method and an
  arrow for each stored edge, green and with its conditions if it is guarded.

  The edges are drawn one after the other.  A method gets its box when it comes up
  first, and is known by the number of the box from then on.
-/
import ApiGuard.CallGraph.Basic

namespace ApiGuard

/-! ## §1. Drawings. -/

/-- An edge, drawn from one box to another. -/
structure Arrow where
  /-- The number of the box of the calling method. -/
  source : Nat
  /-- The number of the box of the called method. -/
  target : Nat
  edge : Edge
  deriving DecidableEq

/-- What is drawn. -/
structure Drawing where
  /-- The methods that have a box, by number. -/
  boxes : Array String := #[]
  /-- The number of the box of each method. -/
  numbers : SortedMap String Nat := ∅
  /-- The edges, in the order in which they were drawn. -/
  arrows : Array Arrow := #[]

namespace Drawing

instance : EmptyCollection Drawing := ⟨{}⟩

/-- The number of the box of a method, which is drawn unless it is there. -/
def box (d : Drawing) (method : String) : Drawing × Nat :=
  match d.numbers.find? method with
  | some number => (d, number)
  | none =>
    ({ d with
        boxes := d.boxes.push method
        numbers := d.numbers.insert method d.boxes.size }, d.boxes.size)

/-- Draw an edge between the boxes of its ends. -/
def draw (d : Drawing) (e : Edge) : Drawing :=
  let (d, source) := d.box e.source
  let (d, target) := d.box e.target
  { d with arrows := d.arrows.push ⟨source, target, e⟩ }

/-- Draw edges, one after the other. -/
def ofEdges (edges : List Edge) : Drawing := edges.foldl draw ∅

/-! ## §2. Text. -/

/-- A character of a method in a quoted label. -/
def escapeMethod (c : Char) : List Char :=
  if c = '"' then ['\\', '"']
  else if c = '\\' then ['\\', '\\']
  else if c = '\n' then ['\\', 'l']
  else [c]

/-- A character of conditions in a quoted label. -/
def escapeConditions (c : Char) : List Char := if c = '"' then ['\\', '"'] else [c]

/-- The text between quotes, with each character written by `escape`. -/
def label (escape : Char → List Char) (text : String) : String :=
  "\"" ++ String.ofList (text.toList.flatMap escape) ++ "\""

/-- A line of the text of a drawing. -/
inductive Line where
  | opening
  | box (number : Nat) (method : String)
  | arrow (a : Arrow)
  | closing
  deriving DecidableEq

/-- Write a line. -/
def Line.render : Line → String
  | opening => "digraph \x7b\n"
  | box number method =>
    "    " ++ toString number ++ " [ label = " ++ label escapeMethod method ++ " shape=box]\n"
  | arrow a =>
    "    " ++ toString a.source ++ " -> " ++ toString a.target ++ " [ "
      ++ (if a.edge.isGuarded then
            "color=green,label=" ++ label escapeConditions a.edge.conditions.render
          else "color=black")
      ++ "]\n"
  | closing => "\x7d\n"

/-- The lines of a drawing: all boxes, then all arrows. -/
def lines (d : Drawing) : List Line :=
  .opening :: d.boxes.toList.mapIdx .box ++ d.arrows.toList.map .arrow ++ [.closing]

/-- Write a drawing. -/
def render (d : Drawing) : String := String.join (d.lines.map Line.render)

end Drawing

namespace CallGraph

/-- The drawing of the stored edges. -/
def drawing (g : CallGraph) : Drawing := .ofEdges g.storedEdges

/-- The text of the drawing. -/
def toDot (g : CallGraph) : String := g.drawing.render

end CallGraph

end ApiGuard
