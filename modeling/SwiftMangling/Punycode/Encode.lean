import SwiftMangling.Punycode.Basic

/-!
Writing punycode. The characters beyond ASCII are taken by ascending code point, and those of one
code point from left to right; a gap counts the insertion slots passed over since the last one.
-/

namespace SwiftMangling.Punycode

/-- The gaps of one code point in a text, starting from the slots passed so far, with the slots
passed after its last occurrence and the number of characters written. -/
def gapsOf (c : CodePoint) : Nat → Nat → Text → List Nat × Nat × Nat
  | passed, count, [] => ([], passed, count)
  | passed, count, x :: xs =>
    if x.val < c.val then gapsOf c (passed + 1) count xs
    else if x = c then
      let (gaps, passed', count') := gapsOf c 0 (count + 1) xs
      (passed :: gaps, passed', count')
    else gapsOf c passed count xs

/-- The gaps of ascending code points; the slots of the code points between are passed over. -/
def gapsOfAll (text : Text) : Nat → Nat → Nat → List CodePoint → List Nat
  | _, _, _, [] => []
  | next, passed, count, c :: cs =>
    let (gaps, passed', count') := gapsOf c (passed + (c.val - next) * (count + 1)) count text
    gaps ++ gapsOfAll text (c.val + 1) (passed' + 1) count' cs

/-- Puts a code point into an ascending list, once. -/
def insertAscending (c : CodePoint) : List CodePoint → List CodePoint
  | [] => [c]
  | x :: xs =>
    if c.val < x.val then c :: x :: xs
    else if c = x then x :: xs
    else x :: insertAscending c xs

/-- The distinct code points of a text beyond ASCII, ascending. -/
def inserted (text : Text) : List CodePoint :=
  (text.filter fun c => firstInserted ≤ c.val).foldr insertAscending []

/-- The gaps of a text after its ASCII characters. -/
def gaps (text : Text) : List Nat :=
  gapsOfAll text firstInserted 0 (text.filter fun c => c.val < firstInserted).length
    (inserted text)

/-- The digits of one gap, the least significant first. -/
def gapDigits (bias : Nat) : Nat → Nat → Nat → List Nat
  | 0, _, _ => []
  | bound + 1, position, rest =>
    let t := threshold bias position
    if rest < t then [rest]
    else
      (t + (rest - t) % (36 - t)) :: gapDigits bias bound (position + 1) ((rest - t) / (36 - t))

/-- The digits of a list of gaps, each under the bias that the gaps before it leave. -/
def digitsFrom (bias count : Nat) (first : Bool) : List Nat → List Nat
  | [] => []
  | gap :: gaps =>
    gapDigits bias (gap + 1) 0 gap
      ++ digitsFrom (adapt gap first (count + 1)) (count + 1) false gaps

/-- The encoded form of a text: its ASCII characters and the delimiter, if there are any, and the
digits of its gaps. -/
def encode (text : Text) : Text :=
  let ascii := text.filter fun c => c.val < firstInserted
  let digits := digitsFrom initialBias ascii.length true (gaps text)
  (if ascii.isEmpty then [] else ascii ++ [delimiter]) ++ digits.map digit

end SwiftMangling.Punycode
