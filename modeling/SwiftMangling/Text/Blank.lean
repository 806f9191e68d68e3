import SwiftMangling.Text.Basic

/-!
White space and the ends of lines. The blank characters are those with the Unicode property
White_Space and the four information separators of ASCII.
-/

namespace SwiftMangling.Text

/-- The first and last code points of the runs of blank characters. -/
def blankRuns : List (Nat × Nat) :=
  [(0x09, 0x0D), (0x1C, 0x20), (0x85, 0x85), (0xA0, 0xA0), (0x1680, 0x1680), (0x2000, 0x200A),
    (0x2028, 0x2029), (0x202F, 0x202F), (0x205F, 0x205F), (0x3000, 0x3000)]

def isBlank (c : CodePoint) : Bool :=
  blankRuns.any fun (first, last) => first ≤ c.val && c.val ≤ last

/-- Drops the characters of a class at both ends. -/
def trim (drop : CodePoint → Bool) (t : Text) : Text :=
  ((t.dropWhile drop).reverse.dropWhile drop).reverse

/-- Drops the blank characters at both ends. -/
def strip (t : Text) : Text :=
  trim isBlank t

/-- The characters that end a line, besides the pair of carriage return and line feed. -/
def endsLine (c : CodePoint) : Bool :=
  c.val ∈ [0x0A, 0x0B, 0x0C, 0x0D, 0x1C, 0x1D, 0x1E, 0x85, 0x2028, 0x2029]

def firstLine (t : Text) : Text :=
  t.takeWhile fun c => !endsLine c

def carriageReturn : CodePoint :=
  .ofChar '\r'

/-- The text with a line feed at the end of each line: a carriage return is dropped where a line feed
follows it, and becomes a line feed elsewhere. -/
def unifyLineEnds : Text → Text
  | [] => []
  | c :: t =>
    if c ≠ carriageReturn then c :: unifyLineEnds t
    else if t.head? = some newline then unifyLineEnds t
    else newline :: unifyLineEnds t

end SwiftMangling.Text
