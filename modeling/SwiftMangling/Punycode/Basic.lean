import SwiftMangling.Text.Basic

/-!
The parts that both directions of punycode share. An encoded name is its ASCII characters, an
underscore, and a run of digits that spells the gaps between the insertions of the other
characters. A gap is a number in base 36 with a threshold for each digit, and the thresholds adapt
to the gaps before. The digits are `a` to `z` for 0 to 25 and `A` to `J` for 26 to 35.
-/

namespace SwiftMangling.Punycode

/-- The mark between the ASCII characters and the digits. -/
def delimiter : CodePoint := .ofChar '_'

def digitValue? (c : CodePoint) : Option Nat :=
  if 0x61 ≤ c.val ∧ c.val ≤ 0x7A then some (c.val - 0x61)
  else if 0x41 ≤ c.val ∧ c.val ≤ 0x4A then some (c.val - 0x41 + 26)
  else none

/-- The digit of a value below 36. -/
def digit (value : Nat) : CodePoint :=
  .ofNat (if value < 26 then 0x61 + value else 0x41 + (value - 26))

/-- The threshold of the digit at a position: a smaller digit is the last of its number. -/
def threshold (bias position : Nat) : Nat :=
  if 36 * (position + 1) < bias + 1 then 1
  else if bias + 26 < 36 * (position + 1) then 26
  else 36 * (position + 1) - bias

/-- Divides by 35 down to 455, counting 36 for each division. -/
def scaleDown : Nat → Nat → Nat → Nat × Nat
  | 0, delta, divisions => (delta, divisions)
  | bound + 1, delta, divisions =>
    if 455 < delta then scaleDown bound (delta / 35) (divisions + 36) else (delta, divisions)

/-- The bias after a gap: small gaps give a small bias, and the first gap counts less. -/
def adapt (gap : Nat) (first : Bool) (count : Nat) : Nat :=
  let halved := if first then gap / 700 else gap / 2
  let scaled := halved + halved / count
  let (delta, divisions) := scaleDown scaled scaled 0
  divisions + 36 * delta / (delta + 38)

def initialBias : Nat := 72

/-- The first code point that is not ASCII. -/
def firstInserted : Nat := 0x80

theorem digitValue?_digit {value : Nat} (h : value < 36) :
    digitValue? (digit value) = some value := by
  have all : ∀ v ∈ List.range 36, digitValue? (digit v) = some v := by decide
  exact all value (List.mem_range.2 h)

theorem threshold_pos (bias position : Nat) : 1 ≤ threshold bias position := by
  unfold threshold
  split
  · omega
  · split <;> omega

theorem threshold_le (bias position : Nat) : threshold bias position ≤ 26 := by
  unfold threshold
  split
  · omega
  · split <;> omega

end SwiftMangling.Punycode
