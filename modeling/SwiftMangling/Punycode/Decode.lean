import SwiftMangling.Punycode.Basic

/-!
Reading punycode. The digits are cut into gaps, each under the bias that the gaps before it leave,
and the gaps then say which character is inserted where.
-/

namespace SwiftMangling.Punycode

/-- Splits at the last occurrence of the delimiter. -/
def splitLast? : Text → Option (Text × Text)
  | [] => none
  | c :: cs =>
    match splitLast? cs with
    | some (before, after) => some (c :: before, after)
    | none => if c = delimiter then some ([], cs) else none

/-- Reads digits as gaps. The number under way has the sum so far, the weight of its next digit and
that digit's position; at the end there may be no number under way. -/
def gapsFrom? (bias count : Nat) (first : Bool) (sum weight position : Nat) :
    List Nat → Option (List Nat)
  | [] => if position = 0 then some [] else none
  | d :: ds =>
    let t := threshold bias position
    let sum := sum + d * weight
    if d < t then
      (gapsFrom? (adapt sum first (count + 1)) (count + 1) false 0 1 0 ds).map (sum :: ·)
    else gapsFrom? bias count first sum (weight * (36 - t)) (position + 1) ds

/-- The gaps that a run of digits spells after a number of ASCII characters. -/
def gaps? (count : Nat) (digits : List Nat) : Option (List Nat) :=
  gapsFrom? initialBias count true 0 1 0 digits

/-- Inserts one character for each gap. Counting goes through the insertion slots of the text for
one code point, then for the next one. -/
def insertGaps? : Text → Nat → Nat → List Nat → Option Text
  | text, _, _, [] => some text
  | text, codePoint, slot, gap :: gaps =>
    let slots := text.length + 1
    let reached := codePoint + (slot + gap) / slots
    let place := (slot + gap) % slots
    if h : reached < 0x110000 then
      insertGaps? (text.insertIdx place ⟨reached, h⟩) reached (place + 1) gaps
    else none

/-- The text that an encoded name stands for; no answer where it is not well formed, spells a code
point beyond the last one, or spells a surrogate. -/
def decode? (encoded : Text) : Option Text := do
  let (ascii, extended) := (splitLast? encoded).getD ([], encoded)
  guard (ascii.all fun c => c.val < firstInserted)
  let digits ← extended.mapM digitValue?
  let gaps ← gaps? ascii.length digits
  let text ← insertGaps? ascii firstInserted 0 gaps
  guard (text.all fun c => !c.isSurrogate)
  pure text

end SwiftMangling.Punycode
