/-
  ApiGuard.Text.Scan
  ──────────────────
  The steps by which texts are read from the left: a step takes characters
  off the front and gives what follows, or fails.
-/

namespace ApiGuard.Text

/-- The next character is `c`; what follows it. -/
def expect (c : Char) : List Char → Option (List Char)
  | d :: rest => if d = c then some rest else none
  | [] => none

/-- The characters before the first stop, at least one, and the rest from that
stop on. -/
def wordBefore (isStop : Char → Bool) (cs : List Char) : Option (List Char × List Char) :=
  if cs.takeWhile (!isStop ·) = [] then none
  else some (cs.takeWhile (!isStop ·), cs.dropWhile (!isStop ·))

theorem length_lt_of_wordBefore {isStop : Char → Bool} {cs word rest : List Char}
    (h : wordBefore isStop cs = some (word, rest)) : rest.length < cs.length := by
  unfold wordBefore at h
  split at h
  next => cases h
  next hne =>
    cases h
    have hparts := congrArg List.length (List.takeWhile_append_dropWhile (p := (!isStop ·)) (l := cs))
    rw [List.length_append] at hparts
    have hpos := List.length_pos_iff.mpr hne
    omega

/-- Is `c` a space or a tab? -/
def isSpaceOrTab (c : Char) : Bool := c == ' ' || c == '\t'

/-- Pass over spaces and tabs. -/
def skipSpaces (cs : List Char) : List Char := cs.dropWhile isSpaceOrTab

/-- Pass over spaces and tabs, at least one. -/
def skipSpaces1 : List Char → Option (List Char)
  | c :: cs => if isSpaceOrTab c then some (skipSpaces cs) else none
  | [] => none

end ApiGuard.Text
