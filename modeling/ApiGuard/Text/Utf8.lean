/-
  ApiGuard.Text.Utf8
  ──────────────────
  Ranges of characters as sequences of ranges of bytes.

  A range is cut into pieces such that the encodings of the characters of a
  piece are all the choices of one byte from each range of a sequence.
-/

namespace ApiGuard.Text.Utf8

/-- A range of bytes, ends included. -/
abbrev ByteRange := UInt8 × UInt8

/-- The code points whose encodings have the same length, shortest first; the
surrogates, which are no characters, are left out. -/
def bands : List (Nat × Nat) :=
  [(0, 0x7F), (0x80, 0x7FF), (0x800, 0xD7FF), (0xE000, 0xFFFF), (0x10000, 0x10FFFF)]

/-- Cut a range that lies in several blocks: what it has of its first and of its
last block, unless it has them whole, and the rest. -/
def cutBlocks (size : Nat) : Nat × Nat → List (Nat × Nat)
  | (lo, hi) =>
    if lo / size = hi / size then [(lo, hi)]
    else
      let (head, lo) :=
        if lo % size = 0 then ([], lo)
        else ([(lo, (lo / size + 1) * size - 1)], (lo / size + 1) * size)
      let (last, next) :=
        if (hi + 1) % size = 0 then ([], hi + 1)
        else ([(hi / size * size, hi)], hi / size * size)
      head ++ (if lo < next then [(lo, next - 1)] else []) ++ last

/-- The pieces of a range.  A byte after the first one counts 64 values. -/
def pieces : Nat × Nat → List (Nat × Nat)
  | (lo, hi) =>
    bands.flatMap fun (first, last) =>
      if max lo first ≤ min hi last then
        if last = 0x7F then [(max lo first, min hi last)]
        else
          ((cutBlocks 64 (max lo first, min hi last)).flatMap (cutBlocks 4096)).flatMap
            (cutBlocks 262144)
      else []

/-- The ranges of bytes in which the encodings of a range of characters lie. -/
def byteRanges : Nat × Nat → List ByteRange
  | (lo, hi) =>
    (String.utf8EncodeChar (Char.ofNat lo)).zip (String.utf8EncodeChar (Char.ofNat hi))

/-- The sequences of a range, in the order of the characters. -/
def sequences (range : Nat × Nat) : List (List ByteRange) := (pieces range).map byteRanges

end ApiGuard.Text.Utf8
