/-
  ApiGuard.Regex.Form
  ───────────────────
  The simple form of an expression.

  Characters in a row are one literal, sequences and choices do not stand within
  their own kind, a choice of characters is a set, and what choices begin with in
  common stands before them.  Groups that capture keep apart what is in them from
  what is around.
-/
import ApiGuard.Regex
import ApiGuard.Pattern

namespace ApiGuard.Regex

/-- An expression in its simple form. -/
inductive Form where
  /-- Nothing. -/
  | empty
  /-- One character or more. -/
  | literal (text : List Char)
  /-- A character of a set. -/
  | set (s : CharSet)
  /-- The start of the text. -/
  | start
  /-- The end of the text. -/
  | stop
  /-- A group that captures. -/
  | group (p : Form)
  /-- A repetition. -/
  | repeated (p : Form) (min : Nat) (max : Option Nat) (isLazy : Bool)
  /-- One after the other, at least two. -/
  | sequence (ps : List Form)
  /-- One of at least two. -/
  | choice (ps : List Form)
  deriving Repr, Inhabited

namespace Form

/-! ## §1. Properties. -/

mutual

/-- Does the form match nothing but the empty text? -/
def isVoid : Form → Bool
  | .empty | .start | .stop => true
  | .literal _ | .set _ => false
  | .group p => isVoid p
  | .repeated p _ max _ => max.isSome && isVoid p
  | .sequence ps => areVoid ps
  | .choice ps => areVoid ps

/-- `isVoid` for all of some forms. -/
def areVoid : List Form → Bool
  | [] => true
  | p :: ps => isVoid p && areVoid ps

end

mutual

/-- Does each match of the form have a character? -/
def isProper : Form → Bool
  | .empty | .start | .stop => false
  | .literal _ => true
  | .set s => !s.ranges.isEmpty
  | .group p => isProper p
  | .repeated p min _ _ => 0 < min && isProper p
  | .sequence ps => anyProper ps
  | .choice ps => allProper ps

/-- `isProper` for one of some forms. -/
def anyProper : List Form → Bool
  | [] => false
  | p :: ps => isProper p || anyProper ps

/-- `isProper` for all of some forms. -/
def allProper : List Form → Bool
  | [] => true
  | p :: ps => isProper p && allProper ps

end

mutual

/-- Are the forms the same?  No two groups are. -/
def same : Form → Form → Bool
  | .empty, .empty | .start, .start | .stop, .stop => true
  | .literal a, .literal b => a == b
  | .set s, .set t => s == t
  | .repeated p min max isLazy, .repeated q min' max' isLazy' =>
    min == min' && max == max' && isLazy == isLazy' && same p q
  | .sequence ps, .sequence qs => sameList ps qs
  | .choice ps, .choice qs => sameList ps qs
  | _, _ => false

/-- `same` for forms in order. -/
def sameList : List Form → List Form → Bool
  | [], [] => true
  | p :: ps, q :: qs => same p q && sameList ps qs
  | _, _ => false

end

/-! ## §2. Construction. -/

/-- The form of a set. -/
def ofSet (s : CharSet) : Form :=
  match s.only? with
  | some c => .literal [c]
  | none => .set s

/-- The bounds of a repetition that count: what matches only the empty text is not
worth more than one time. -/
def bounds (p : Form) (min : Nat) (max : Option Nat) : Nat × Option Nat :=
  if isVoid p then (Nat.min min 1, some (Nat.min (max.getD 1) 1)) else (min, max)

/-- A repetition.  No time is nothing, and one time is the form itself. -/
def ofRepetition (p : Form) (min : Nat) (max : Option Nat) (isLazy : Bool) : Form :=
  match bounds p min max with
  | (0, some 0) => .empty
  | (1, some 1) => p
  | (min, max) => .repeated p min max isLazy

/-- The parts of a form in a sequence. -/
def items : Form → List Form
  | .empty => []
  | .sequence ps => ps
  | p => [p]

/-- Put a form before others; literals side by side become one. -/
def join : Form → List Form → List Form
  | .literal a, .literal b :: ps => .literal (a ++ b) :: ps
  | p, ps => p :: ps

/-- Forms one after the other. -/
def ofItems (ps : List Form) : Form :=
  match (ps.flatMap items).foldr join [] with
  | [] => .empty
  | [p] => p
  | ps => .sequence ps

/-- The branches of a form in a choice. -/
def branches : Form → List Form
  | .choice ps => ps
  | p => [p]

/-- The text of a literal. -/
def literal? : Form → Option (List Char)
  | .literal text => some text
  | _ => none

/-- The character of a literal that has only one. -/
def letter? : Form → Option Char
  | .literal [c] => some c
  | _ => none

/-- The characters of a set. -/
def set? : Form → Option CharSet
  | .set s => some s
  | _ => none

/-- One of some forms.  Characters make a set, and so do sets. -/
def ofChoices (ps : List Form) : Form :=
  match ps.flatMap branches with
  | [p] => p
  | ps =>
    match ps.mapM letter?, ps.mapM set? with
    | some cs, _ => ofSet (.ofChars cs)
    | _, some sets => ofSet (.union sets)
    | _, _ => .choice ps

/-- What two sequences begin with in common. -/
def commonStart : List Form → List Form → List Form
  | p :: ps, q :: qs => if same p q then p :: commonStart ps qs else []
  | _, _ => []

/-- The parts of a sequence. -/
def sequence? : Form → Option (List Form)
  | .sequence ps => some ps
  | _ => none

/-- A choice of sequences after what they begin with in common. -/
def factored (ps : List Form) : Option Form := do
  let rows ← ps.mapM sequence?
  let first ← rows.head?
  let start := rows.foldl commonStart first
  guard (start ≠ [])
  return ofItems (start ++ [ofChoices (rows.map fun row => ofItems (row.drop start.length))])

/-- One of some forms, in its simple form. -/
def ofBranches (ps : List Form) : Form :=
  match ofChoices ps with
  | .choice ps => (factored ps).getD (.choice ps)
  | p => p

/-! ## §3. The pattern of a form. -/

mutual

/-- The pattern that matches what the form does. -/
def toPattern : Form → Pattern
  | .empty => .empty
  | .literal text => .literal text
  | .set s => .one s
  | .start => .start
  | .stop => .stop
  | .group p => toPattern p
  | .repeated p min max _ => (toPattern p).between min max
  | .sequence ps => .sequence (toPatterns ps)
  | .choice ps => .choice (toPatterns ps)

/-- `toPattern` for each of some forms. -/
def toPatterns : List Form → List Pattern
  | [] => []
  | p :: ps => toPattern p :: toPatterns ps

end

end Form

/-! ## §4. The form of an expression. -/

/-- The form of a letter. -/
def letterForm (c : Char) (anyCase : Bool) : Form :=
  .ofSet (if anyCase then (CharSet.single c).anyCase else .single c)

/-- The characters of a bracket. -/
def bracketSet (items : List (Char × Char)) (negated anyCase : Bool) : CharSet :=
  let s := CharSet.ofRanges (items.map fun (lo, hi) => (lo.toNat, hi.toNat))
  let s := if anyCase then s.anyCase else s
  if negated then s.complement else s

mutual

/-- The simple form of an expression. -/
def form : Regex → Form
  | .empty => .empty
  | .letter c anyCase => letterForm c anyCase
  | .any => .set .anyButNewline
  | .bracket items negated anyCase => .ofSet (bracketSet items negated anyCase)
  | .start => .start
  | .stop => .stop
  | .group captures e => if captures then .group (form e) else form e
  | .repeated e min max isLazy => .ofRepetition (form e) min max isLazy
  | .sequence es => .ofItems (forms es)
  | .choice es => .ofBranches (forms es)

/-- The simple forms of some expressions. -/
def forms : List Regex → List Form
  | [] => []
  | e :: es => form e :: forms es

end

end ApiGuard.Regex
