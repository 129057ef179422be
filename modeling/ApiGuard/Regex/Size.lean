/-
  ApiGuard.Regex.Size
  ───────────────────
  How large the automaton of an expression is.

  The automaton reads bytes.  It consists of states, of which those that read one
  byte of several kinds have a transition for each kind, and those that lead on
  without reading have an alternative for each way.  There is one automaton for
  each direction in which a text may be read, and both must be small enough for
  the expression to be accepted.
-/
import ApiGuard.Regex.Form
import ApiGuard.Text.Utf8

namespace ApiGuard.Regex

/-! ## §1. Parts of an automaton. -/

/-- The direction in which an automaton reads. -/
inductive Direction where
  | forward
  | backward
  deriving DecidableEq, Repr

namespace Automaton

open Text.Utf8 (ByteRange)

/-- The bytes of a state. -/
def stateSize : Nat := 32

/-- The bytes of a transition. -/
def transitionSize : Nat := 8

/-- The bytes of an alternative. -/
def alternativeSize : Nat := 4

/-- The bytes of a state with the given number of transitions. -/
def branchSize (transitions : Nat) : Nat := stateSize + transitionSize * transitions

/-- The bytes of a state with the given number of alternatives. -/
def forkSize (alternatives : Nat) : Nat := stateSize + alternativeSize * alternatives

/-- The sum of some sizes. -/
def total (sizes : List Nat) : Nat := sizes.foldl (· + ·) 0

/-- The part of an automaton for a part of an expression. -/
structure Fragment where
  /-- Its bytes. -/
  size : Nat
  /-- Its last state has alternatives, and takes one more to be led on. -/
  isOpen : Bool
  deriving DecidableEq, Repr

namespace Fragment

/-- A fragment that ends in a state with a fixed way on. -/
def closed (size : Nat) : Fragment := ⟨size, false⟩

/-- What it takes to lead the fragment on to another. -/
def linkSize (f : Fragment) : Nat := if f.isOpen then alternativeSize else 0

/-- The bytes of the fragment when it is led on. -/
def linked (f : Fragment) : Nat := f.size + f.linkSize

/-- Fragments one after the other. -/
def sequence : List Fragment → Fragment
  | [] => closed stateSize
  | [f] => f
  | f :: fs => ⟨f.linked + (sequence fs).size, (sequence fs).isOpen⟩

/-- One of some fragments: a state to part and one to meet. -/
def choice (fs : List Fragment) : Fragment :=
  closed (forkSize fs.length + stateSize + total (fs.map linked))

/-- A fragment the given number of times. -/
def times (f : Fragment) : Nat → Fragment
  | 0 => closed stateSize
  | n + 1 => ⟨n * f.linked + f.size, f.isOpen⟩

/-- A fragment any number of times.  If it may match nothing, the way around it
does not lead through the state that repeats it. -/
def star (f : Fragment) (isProper : Bool) : Fragment :=
  if isProper then ⟨forkSize 1 + f.linked, true⟩
  else closed (f.linked + forkSize 2 + forkSize 2 + stateSize)

/-- A fragment at least the given number of times, which is not zero. -/
def atLeast (f : Fragment) (min : Nat) : Fragment :=
  ⟨(f.times min).linked + forkSize 1, true⟩

/-- A fragment between two numbers of times: after the least number, each time has
a way out. -/
def between (f : Fragment) (min max : Nat) : Fragment :=
  closed ((f.times min).linked + stateSize + (max - min) * (forkSize 2 + f.linked))

/-- A repetition of a fragment. -/
def repeated (f : Fragment) (isProper : Bool) (min : Nat) : Option Nat → Fragment
  | none => if min = 0 then star f isProper else atLeast f min
  | some max =>
    if min = 0 ∧ max = 1 then closed (forkSize 2 + f.linked + stateSize)
    else if min = max then f.times min
    else f.between min max

end Fragment

/-! ## §2. Sets of characters. -/

/-- The first ranges of some sequences, each once. -/
def firstRanges (rows : List (List ByteRange)) : List ByteRange :=
  (rows.filterMap List.head?).eraseDups

/-- What follows a first range in some sequences. -/
def after (r : ByteRange) (rows : List (List ByteRange)) : List (List ByteRange) :=
  rows.filterMap fun
    | r' :: row => if r' = r then some row else none
    | [] => none

/-- The states that read the sequences, each given by what may be read from there;
`length` bounds the lengths of the sequences. -/
def states : Nat → List (List ByteRange) → List (List (List ByteRange))
  | 0, _ => []
  | length + 1, rows =>
    if firstRanges rows = [] then []
    else rows :: (firstRanges rows).flatMap fun r => states length (after r rows)

/-- The ways in which the sequences begin. -/
def starts (rows : List (List ByteRange)) : List (List ByteRange) :=
  (rows.flatMap fun row => (List.range row.length).map fun n => row.take (n + 1)).eraseDups

/-- The fragment of a set.  Forward, states that have the same to read are one;
backward, those are that have the same still to come. -/
def ofSet (d : Direction) (s : CharSet) : Fragment :=
  if s.ranges.all fun (_, hi) => hi < 0x80 then
    .closed (stateSize + branchSize s.ranges.length)
  else
    let rows := s.ranges.flatMap Text.Utf8.sequences
    match d with
    | .forward =>
      let sizes := (states 4 rows).eraseDups.map fun rows => branchSize (firstRanges rows).length
      .closed (stateSize + total sizes)
    | .backward =>
      .closed (forkSize rows.length + stateSize + stateSize * (starts rows).length)

/-! ## §3. Choices of words. -/

/-- Cut words where one has ended.  Words that end before any goes on count as
one. -/
def runs (words : List (List UInt8)) : List (List (List UInt8)) :=
  match words with
  | [] :: rest => [] :: splitEnds (rest.dropWhile List.isEmpty)
  | words => splitEnds words
where
  /-- The words between those that have ended. -/
  splitEnds : List (List UInt8) → List (List (List UInt8))
    | [] => [[]]
    | [] :: rest => [] :: splitEnds rest
    | word :: rest =>
      match splitEnds rest with
      | run :: runs => (word :: run) :: runs
      | [] => [[word]]

/-- The bytes of the state that reads one of the given first letters. -/
def readSize (letters : List UInt8) : Nat :=
  match letters with
  | [] => 0
  | [_] => stateSize
  | letters => branchSize letters.length

/-- The bytes of the states that read one of the words and of those after them.
The words that begin alike are read together, as long as no other word has ended
in between; `length` bounds the lengths of the words. -/
def wordsSize : Nat → List (List UInt8) → Nat
  | 0, _ => 0
  | length + 1, words =>
    if words.all List.isEmpty then 0
    else
      let runs := runs words
      let letters := runs.map fun run => (run.filterMap List.head?).eraseDups
      let ways := (letters.filter (· ≠ [])).length + (runs.length - 1)
      let rest := (runs.zip letters).flatMap fun (run, letters) =>
        letters.map fun b => wordsSize length (run.filterMap fun
          | b' :: word => if b' = b then some word else none
          | [] => none)
      forkSize ways + total (letters.map readSize) + total rest

/-- The bytes of a text in the order in which they are read. -/
def encode (d : Direction) (text : List Char) : List UInt8 :=
  match d with
  | .forward => text.flatMap String.utf8EncodeChar
  | .backward => (text.flatMap String.utf8EncodeChar).reverse

/-- The fragment of a choice of texts. -/
def ofWords (d : Direction) (texts : List (List Char)) : Fragment :=
  let words := texts.map (encode d)
  .closed (stateSize + wordsSize ((words.map List.length).foldl max 0) words)

/-! ## §4. Expressions. -/

/-- Put fragments into the order in which they are read. -/
def inOrder (d : Direction) (fs : List Fragment) : List Fragment :=
  match d with
  | .forward => fs
  | .backward => fs.reverse

mutual

/-- The fragment of an expression. -/
def ofForm (d : Direction) : Form → Fragment
  | .empty | .start | .stop => .closed stateSize
  | .literal text => .closed (stateSize * (encode d text).length)
  | .set s => ofSet d s
  | .group p =>
    match d with
    | .forward => .closed (stateSize + (ofForm d p).linked + stateSize)
    | .backward => ofForm d p
  | .repeated p min max _ => (ofForm d p).repeated p.isProper min max
  | .sequence ps => .sequence (inOrder d (ofForms d ps))
  | .choice ps =>
    match ps.mapM Form.literal? with
    | some texts => ofWords d texts
    | none => .choice (ofForms d ps)

/-- The fragments of some expressions. -/
def ofForms (d : Direction) : List Form → List Fragment
  | [] => []
  | p :: ps => ofForm d p :: ofForms d ps

end

mutual

/-- Does each match begin at the start of the text? -/
def isAtStart : Form → Bool
  | .start => true
  | .group p => isAtStart p
  | .repeated p min _ _ => 0 < min && isAtStart p
  | .sequence ps => beginAtStart ps
  | .choice ps => areAtStart ps
  | _ => false

/-- `isAtStart` for forms one after the other. -/
def beginAtStart : List Form → Bool
  | [] => false
  | p :: ps => isAtStart p || (p.isVoid && beginAtStart ps)

/-- `isAtStart` for all of some forms. -/
def areAtStart : List Form → Bool
  | [] => true
  | p :: ps => isAtStart p && areAtStart ps

end

mutual

/-- Does each match end at the end of the text? -/
def isAtStop : Form → Bool
  | .stop => true
  | .group p => isAtStop p
  | .repeated p min _ _ => 0 < min && isAtStop p
  | .sequence ps => endAtStop ps
  | .choice ps => areAtStop ps
  | _ => false

/-- `isAtStop` for forms one after the other. -/
def endAtStop : List Form → Bool
  | [] => false
  | p :: ps => endAtStop ps || (isAtStop p && Form.areVoid ps)

/-- `isAtStop` for all of some forms. -/
def areAtStop : List Form → Bool
  | [] => true
  | p :: ps => isAtStop p && areAtStop ps

end

/-- Does a match begin where reading does? -/
def isAnchored (d : Direction) (p : Form) : Bool :=
  match d with
  | .forward => isAtStart p
  | .backward => isAtStop p

/-- The states before a match: unless it is anchored, any bytes may be read. -/
def leadIn (d : Direction) (p : Form) : Nat :=
  if isAnchored d p then stateSize
  else (Fragment.star (.closed (stateSize + branchSize 1)) true).linked

/-- The bytes of the whole automaton.  The match as a whole is a group. -/
def size (d : Direction) (p : Form) : Nat :=
  let f := match d with
    | .forward => ofForm d (.group p)
    | .backward => ofForm d p
  leadIn d p + f.linked + stateSize

/-- The greatest number of bytes that is accepted. -/
def maxSize : Nat := 10 * 1024 * 1024

/-- Are the automata of the expression small enough? -/
def fits (p : Form) : Bool := size .forward p ≤ maxSize && size .backward p ≤ maxSize

end Automaton

end ApiGuard.Regex
