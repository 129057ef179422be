/-
  ApiGuard.Regex.Reader
  ─────────────────────
  The text form of expressions.

      .              any character but the newline
      ^  $           the start and the end of the text
      [a-z]  [^.]    a character in, or not in, a set
      \.             the character itself
      pq  p|q  (p)   one after the other, one or the other, grouping
      p*  p+  p?     any number of times, at least once, at most once
      p{n}  p{n,}  p{n,m}
      (?:p)          grouping
      (?i)           letters in both cases, from here to the end of the group

  A repetition may be followed by `?`, which makes it lazy.
-/
import ApiGuard.Decimal
import ApiGuard.Regex
import ApiGuard.Text

namespace ApiGuard.Regex

/-! ## §1. Characters and sets. -/

/-- The character that stands for itself, or for a control character, after a
backslash.  Letters and digits are kept for other uses, and so are `<` and `>`. -/
def escaped? (c : Char) : Option Char :=
  match c with
  | 'a' => some '\x07'
  | 'f' => some '\x0c'
  | 'n' => some '\n'
  | 'r' => some '\r'
  | 't' => some '\t'
  | 'v' => some '\x0b'
  | _ =>
    if c.toNat < 0x80 ∧ ¬ c.isAlphanum ∧ c ≠ '<' ∧ c ≠ '>' then some c else none

/-- One character of a set, and the rest. -/
def scanMember : List Char → Option (Char × List Char)
  | '\\' :: c :: rest => (escaped? c).map (·, rest)
  | '\\' :: [] => none
  | c :: rest => some (c, rest)
  | [] => none

/-- Does a set operation or a set within the set begin here? -/
def beginsSetOperation : List Char → Bool
  | '[' :: _ => true
  | '&' :: '&' :: _ => true
  | '-' :: '-' :: _ => true
  | '~' :: '~' :: _ => true
  | _ => false

/-- The ranges up to the closing bracket, and what follows it.  A dash stands for
itself before the bracket. -/
def scanRanges : Nat → List Char → Option (List (Char × Char) × List Char)
  | 0, _ => none
  | fuel + 1, cs =>
    match cs with
    | ']' :: rest => some ([], rest)
    | cs =>
      if beginsSetOperation cs then none
      else do
        let (lo, cs) ← scanMember cs
        match cs with
        | '-' :: ']' :: _ | '-' :: '-' :: _ => more fuel (lo, lo) cs
        | '-' :: cs =>
          let (hi, cs) ← scanMember cs
          if lo ≤ hi then more fuel (lo, hi) cs else none
        | cs => more fuel (lo, lo) cs
where
  /-- Put a range before those that follow. -/
  more (fuel : Nat) (range : Char × Char) (cs : List Char) :
      Option (List (Char × Char) × List Char) := do
    let (ranges, rest) ← scanRanges fuel cs
    return (range :: ranges, rest)

/-- The dashes that a set begins with, and the rest. -/
def scanDashes (cs : List Char) : List (Char × Char) × List Char :=
  ((cs.takeWhile (· = '-')).map fun c => (c, c), cs.dropWhile (· = '-'))

/-- The set after its opening bracket, and what follows the closing one.  Dashes
stand for themselves at its beginning, and a bracket that would close an empty
set does. -/
def scanBracket (anyCase : Bool) (cs : List Char) : Option (Regex × List Char) := do
  let (negated, cs) := match cs with
    | '^' :: cs => (true, cs)
    | cs => (false, cs)
  let (dashes, cs) := scanDashes cs
  let (first, cs) := match dashes, cs with
    | [], ']' :: cs => ([(']', ']')], cs)
    | _, cs => (dashes, cs)
  let (ranges, cs) ← scanRanges (cs.length + 1) cs
  return (.bracket (first ++ ranges) negated anyCase, cs)

/-! ## §2. Repetition. -/

/-- A number between blanks, and the rest. -/
def scanCount (cs : List Char) : Option (Nat × List Char) := do
  let (n, cs) ← Decimal.scan (cs.dropWhile Text.isBlank)
  let n ← Decimal.toUInt32? n
  return (n, cs.dropWhile Text.isBlank)

/-- The bounds after an opening brace, and what follows the closing one. -/
def scanBounds (cs : List Char) : Option ((Nat × Option Nat) × List Char) := do
  let (min, cs) ← scanCount cs
  match cs with
  | '\x7d' :: rest => return ((min, some min), rest)
  | ',' :: '\x7d' :: rest => return ((min, none), rest)
  | ',' :: cs =>
    let (max, cs) ← scanCount cs
    match cs with
    | '\x7d' :: rest => if min ≤ max then return ((min, some max), rest) else none
    | _ => none
  | _ => none

/-- Is a repetition lazy, and what follows it. -/
def scanLazy : List Char → Bool × List Char
  | '?' :: cs => (true, cs)
  | cs => (false, cs)

/-- The expression `e` with the repetitions that follow it, and the rest. -/
def scanRepetitions : Nat → Regex → List Char → Option (Regex × List Char)
  | 0, _, _ => none
  | fuel + 1, e, cs =>
    match cs with
    | '*' :: cs => more fuel e (0, none) cs
    | '+' :: cs => more fuel e (1, none) cs
    | '?' :: cs => more fuel e (0, some 1) cs
    | '\x7b' :: cs => do
      let (bounds, cs) ← scanBounds cs
      more fuel e bounds cs
    | cs => some (e, cs)
where
  /-- The repetition with the given bounds, and those that follow it. -/
  more (fuel : Nat) (e : Regex) (bounds : Nat × Option Nat) (cs : List Char) :
      Option (Regex × List Char) :=
    let (isLazy, cs) := scanLazy cs
    scanRepetitions fuel (.repeated e bounds.1 bounds.2 isLazy) cs

/-! ## §3. Expressions. -/

/-- The flags after `(?`: whether letters count in both cases, the character
after the flags, and what follows it. -/
def scanFlags (anyCase : Bool) : List Char → Option (Bool × Char × List Char)
  | 'i' :: c :: rest => some (true, c, rest)
  | '-' :: 'i' :: c :: rest => some (false, c, rest)
  | ':' :: rest => some (anyCase, ':', rest)
  | _ => none

mutual

/-- The branches up to the end of a group or of the text, and the rest. -/
def scanBranches : Nat → Bool → List Char → Option (List Regex × List Char)
  | 0, _, _ => none
  | fuel + 1, anyCase, cs => do
    let (items, anyCase, cs) ← scanItems fuel anyCase cs
    match cs with
    | '|' :: cs =>
      let (branches, cs) ← scanBranches fuel anyCase cs
      return (ofItems items :: branches, cs)
    | cs => return ([ofItems items], cs)

/-- The items up to the end of a branch, the flag in force there, and the rest. -/
def scanItems : Nat → Bool → List Char → Option (List Regex × Bool × List Char)
  | 0, _, _ => none
  | fuel + 1, anyCase, cs =>
    match cs with
    | [] | '|' :: _ | ')' :: _ => some ([], anyCase, cs)
    | '*' :: _ | '+' :: _ | '?' :: _ | '\x7b' :: _ => none
    | '(' :: '?' :: cs => do
      let (inner, c, cs) ← scanFlags anyCase cs
      if c = ')' then
        let (items, anyCase, cs) ← scanItems fuel inner cs
        return (.empty :: items, anyCase, cs)
      else if c = ':' then scanGroup fuel false inner anyCase cs
      else none
    | '(' :: cs => scanGroup fuel true anyCase anyCase cs
    | '[' :: cs => do
      let (e, cs) ← scanBracket anyCase cs
      scanRest fuel e anyCase cs
    | '.' :: cs => scanRest fuel .any anyCase cs
    | '^' :: cs => scanRest fuel .start anyCase cs
    | '$' :: cs => scanRest fuel .stop anyCase cs
    | cs => do
      let (c, cs) ← scanMember cs
      scanRest fuel (.letter c anyCase) anyCase cs

/-- A group after its opening, its repetitions, and the items after it. -/
def scanGroup : Nat → Bool → Bool → Bool → List Char →
    Option (List Regex × Bool × List Char)
  | 0, _, _, _, _ => none
  | fuel + 1, captures, inner, anyCase, cs => do
    let (branches, cs) ← scanBranches fuel inner cs
    match cs with
    | ')' :: cs => scanRest fuel (.group captures (ofBranches branches)) anyCase cs
    | _ => none

/-- The repetitions of an expression, and the items after it. -/
def scanRest : Nat → Regex → Bool → List Char →
    Option (List Regex × Bool × List Char)
  | 0, _, _, _ => none
  | fuel + 1, e, anyCase, cs => do
    let (e, cs) ← scanRepetitions (cs.length + 1) e cs
    let (items, anyCase, cs) ← scanItems fuel anyCase cs
    return (e :: items, anyCase, cs)

end

/-- Read an expression.  Three nested calls take a character at least, so four
times as many as there are characters are enough. -/
def parse? (text : String) : Option Regex := do
  let cs := text.toList
  let (branches, rest) ← scanBranches (4 * cs.length + 4) false cs
  guard (rest = [])
  return ofBranches branches

end ApiGuard.Regex
