import SwiftMangling.Text.Basic

/-!
Decimal notation, and the names of generic parameters. Numbers are written and read with a bounded
number of digits: a number that has more is called overlong and is neither written nor read. A
parameter's name has the letters of the index in base 26, the least significant first, and the depth
after them unless it is zero; there is no name for a depth that is overlong.
-/

namespace SwiftMangling

namespace Decimal

/-- The largest number of digits that are written or read. -/
def maxDigits : Nat := 4300

/-- A number in decimal digits, a negative one after a minus sign. -/
def ofInt : Int → List Char
  | .ofNat n => Nat.toDigits 10 n
  | .negSucc n => '-' :: Nat.toDigits 10 (n + 1)

def text (i : Int) : Text :=
  (ofInt i).map CodePoint.ofChar

/-- How many digits a number has, without its sign. -/
def digitCount (i : Int) : Nat :=
  (Nat.toDigits 10 i.natAbs).length

/-- Whether a number has no more digits than are written. -/
def isWritable (i : Int) : Bool :=
  digitCount i ≤ maxDigits

/-- A number as it is written, unless it is overlong. -/
def text? (i : Int) : Option Text :=
  if isWritable i then some (text i) else none

/-- The number that a run of ASCII digits spells. -/
def value (digits : Bytes) : Nat :=
  digits.foldl (fun sum b => 10 * sum + (b.toNat - 0x30)) 0

/-- The number that a numeral stands for; there is none for an empty one, or for one with anything
but ASCII digits. -/
def number? (numeral : Bytes) : Option Nat :=
  if numeral.isEmpty || !numeral.all Bytes.isDigit then none else some (value numeral)

/-- What a run of digits comes to under a limit. -/
inductive Bounded where
  | within (n : Nat)
  | beyond
  /-- The limit, or the number, is overlong. -/
  | overlong
  /-- The run is no numeral. -/
  | malformed
  deriving DecidableEq, Repr

/-- Reads a run of digits under a limit. A run that is longer than the written limit is beyond it
and is not converted. -/
def bounded (limit : Int) (digits : Bytes) : Bounded :=
  let significant := digits.dropWhile (· == 0x30)
  if !isWritable limit then .overlong
  else if (ofInt limit).length < significant.length then .beyond
  else if maxDigits < significant.length then .overlong
  else
    match number? (if significant.isEmpty then [0x30] else significant) with
    | none => .malformed
    | some n => if limit < n then .beyond else .within n

end Decimal

/-- The letters of a number below a bound; zero has one letter. -/
def archetypeLetters : Nat → Nat → List Char
  | 0, _ => []
  | bound + 1, n =>
    Char.ofNat (0x41 + n % 26) ::
      if n / 26 = 0 then [] else archetypeLetters bound (n / 26)

def archetypeName (index : Nat) (depth : Int) : Text :=
  let letters := archetypeLetters (index + 1) index
  (letters ++ if depth = 0 then [] else Decimal.ofInt depth).map CodePoint.ofChar

/-- The name, unless the depth is overlong. -/
def archetypeName? (index : Nat) (depth : Int) : Option Text :=
  if Decimal.isWritable depth then some (archetypeName index depth) else none

end SwiftMangling
