import SwiftMangling.Decimal
import SwiftMangling.Text.Blank
import SwiftMangling.Text.Quoted

/-!
Reading values that people write: words for truth values, in any case, and integers. An integer may
have blanks around it, a sign, a base given by a prefix of `0x`, `0o` or `0b`, underscores between
digits, and digits of any script. A decimal numeral begins with a zero only if it is zero.
-/

namespace SwiftMangling

namespace Text

def trueWords : List Text :=
  ["yes", "on", "y", "true", "1"]

def falseWords : List Text :=
  ["no", "off", "n", "false", "0", "0.0", "", "none"]

/-- The truth value that a word stands for. No letter beyond ASCII has a lower-case form that
occurs in one of the words. -/
def truth? (t : Text) : Option Bool :=
  let word := t.map CodePoint.asciiLower
  if word ∈ trueWords then some true
  else if word ∈ falseWords then some false
  else none

/-- The zeros of the decimal digits of all scripts: the characters of general category Nd in Unicode 14
come in runs of ten, by ascending value. -/
def decimalZeros : List Nat :=
  [0x30, 0x660, 0x6F0, 0x7C0, 0x966, 0x9E6, 0xA66, 0xAE6, 0xB66, 0xBE6, 0xC66, 0xCE6, 0xD66, 0xDE6,
   0xE50, 0xED0, 0xF20, 0x1040, 0x1090, 0x17E0, 0x1810, 0x1946, 0x19D0, 0x1A80, 0x1A90, 0x1B50,
   0x1BB0, 0x1C40, 0x1C50, 0xA620, 0xA8D0, 0xA900, 0xA9D0, 0xA9F0, 0xAA50, 0xABF0, 0xFF10, 0x104A0,
   0x10D30, 0x11066, 0x110F0, 0x11136, 0x111D0, 0x112F0, 0x11450, 0x114D0, 0x11650, 0x116C0,
   0x11730, 0x118E0, 0x11950, 0x11C50, 0x11D50, 0x11DA0, 0x16A60, 0x16AC0, 0x16B50, 0x1D7CE,
   0x1D7D8, 0x1D7E2, 0x1D7EC, 0x1D7F6, 0x1E140, 0x1E2F0, 0x1E950, 0x1FBF0]

/-- The value of a decimal digit of any script. -/
def digitValue? (c : CodePoint) : Option Nat :=
  (decimalZeros.find? fun first => first ≤ c.val && c.val < first + 10).map (c.val - ·)

end Text

namespace Numeral

/-- Why a text is no numeral. -/
inductive Fault where
  | malformed
  /-- There are more decimal digits than are converted. -/
  | tooLong (digits : Nat)
  deriving DecidableEq, Repr

def Fault.message (source : Text) : Fault → Text
  | malformed => "invalid literal for int() with base 0: " ++ (Text.quoted source).take 200
  | tooLong digits =>
    "Exceeds the limit (" ++ Decimal.text Decimal.maxDigits
      ++ " digits) for integer string conversion: value has " ++ Decimal.text digits
      ++ " digits; use sys.set_int_max_str_digits() to increase the limit"

/-- A digit of any script as an ASCII character; other characters beyond ASCII fit nowhere. -/
def asciiForm (c : CodePoint) : Char :=
  if c.val < 0x7F then Char.ofNat c.val
  else
    match Text.digitValue? c with
    | some value => Char.ofNat (0x30 + value)
    | none => '?'

/-- The blanks around a numeral: the information separators of ASCII are not among them. -/
def isOuterBlank (c : CodePoint) : Bool :=
  Text.isBlank c && !(0x1C ≤ c.val && c.val ≤ 0x1F)

/-- The value of a digit in any base up to 36. -/
def digitOf? (c : Char) : Option Nat :=
  if c.isDigit then some (c.toNat - 0x30)
  else if 'a' ≤ c ∧ c ≤ 'z' then some (c.toNat - 0x61 + 10)
  else if 'A' ≤ c ∧ c ≤ 'Z' then some (c.toNat - 0x41 + 10)
  else none

def isDigitIn (base : Nat) (c : Char) : Bool :=
  (digitOf? c).any (· < base)

/-- The base that a prefix gives, and what follows the prefix with one underscore after it. -/
def splitBase : List Char → Nat × List Char
  | '0' :: letter :: rest =>
    let afterMark := match rest with
      | '_' :: rest => rest
      | _ => rest
    if letter = 'x' ∨ letter = 'X' then (16, afterMark)
    else if letter = 'o' ∨ letter = 'O' then (8, afterMark)
    else if letter = 'b' ∨ letter = 'B' then (2, afterMark)
    else (10, '0' :: letter :: rest)
  | cs => (10, cs)

/-- The run of digits and underscores at the front: its digits, where every underscore stands
between two digits, and what follows. -/
def spanNumerals (base : Nat) (cs : List Char) : Option (List Char × List Char) :=
  let run := cs.takeWhile fun c => isDigitIn base c || c = '_'
  let rest := cs.dropWhile fun c => isDigitIn base c || c = '_'
  let groups := run.splitOnP (· = '_')
  if groups.all fun group => !group.isEmpty then some (groups.flatten, rest) else none

def valueIn (base : Nat) (digits : List Char) : Nat :=
  digits.foldl (fun sum c => base * sum + (digitOf? c).getD 0) 0

/-- A numeral without blanks and sign. -/
def unsigned? (cs : List Char) : Except Fault Nat :=
  let (base, body) := splitBase cs
  match spanNumerals base body with
  | none => .error .malformed
  | some (digits, rest) =>
    let value := valueIn base digits
    if base = 10 ∧ Decimal.maxDigits < digits.length then .error (.tooLong digits.length)
    else if base = 10 ∧ digits.head? = some '0' ∧ value ≠ 0 then .error .malformed
    else if rest.isEmpty then .ok value
    else .error .malformed

/-- The integer that a text spells. -/
def int? (t : Text) : Except Fault Int :=
  match (Text.trim isOuterBlank t).map asciiForm with
  | '+' :: cs => (unsigned? cs).map fun n => (n : Int)
  | '-' :: cs => (unsigned? cs).map fun n => -(n : Int)
  | cs => (unsigned? cs).map fun n => (n : Int)

end Numeral

end SwiftMangling
