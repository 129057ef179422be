/-
  ApiGuard.Text
  ─────────────
  What the other modules need to know about plain text: which characters are
  blank, how a text is cut into lines, and whether one text occurs in another.
-/

namespace ApiGuard.Text

/-! ## §1. Blank characters. -/

/-- The ranges, ends included, of the Unicode property `White_Space`. -/
def blankRanges : List (Nat × Nat) :=
  [(0x9, 0xD), (0x20, 0x20), (0x85, 0x85), (0xA0, 0xA0), (0x1680, 0x1680),
    (0x2000, 0x200A), (0x2028, 0x2029), (0x202F, 0x202F), (0x205F, 0x205F),
    (0x3000, 0x3000)]

/-- Is `c` white space in the sense of Unicode? -/
def isBlank (c : Char) : Bool :=
  blankRanges.any fun (lo, hi) => lo ≤ c.toNat && c.toNat ≤ hi

example : (blankRanges.map fun (lo, hi) => hi + 1 - lo).sum = 25 := by decide

/-- Drop the blank characters at both ends. -/
def trim (cs : List Char) : List Char :=
  ((cs.dropWhile isBlank).reverse.dropWhile isBlank).reverse

/-! ## §2. Lines. -/

/-- Drop one carriage return at the end. -/
def dropReturn (line : List Char) : List Char :=
  if line.getLast? = some '\r' then line.dropLast else line

/-- The lines of a text.  Each newline ends a line and takes a carriage return
just before it along; text after the last newline is a line as it stands. -/
def lines (cs : List Char) : List (List Char) :=
  let pieces := cs.splitOn '\n'
  pieces.dropLast.map dropReturn ++ pieces.getLast?.toList.filter (· ≠ [])

/-! ## §3. Occurrence. -/

/-- Does `word` occur in a list of characters?  The empty word always does. -/
def occursIn (word : List Char) : List Char → Bool
  | [] => word.isEmpty
  | c :: cs => word.isPrefixOf (c :: cs) || occursIn word cs

theorem occursIn_iff {word cs : List Char} : occursIn word cs = true ↔ word <:+: cs := by
  induction cs with
  | nil => simp [occursIn]
  | cons c cs ih =>
    rw [occursIn, Bool.or_eq_true, ih, List.isPrefixOf_iff_prefix, List.infix_cons_iff]

/-- Does `marker` occur somewhere in `text`? -/
def mentions (text marker : String) : Bool := occursIn marker.toList text.toList

theorem mentions_iff {text marker : String} :
    mentions text marker = true ↔ marker.toList <:+: text.toList := occursIn_iff

/-- Does `text` begin with `start`? -/
def beginsWith (text start : String) : Bool :=
  start.toList.isPrefixOf text.toList

/-- The text with every `a` replaced by `b`. -/
def replaceChar (a b : Char) (text : String) : String :=
  text.map fun c => if c = a then b else c

end ApiGuard.Text
