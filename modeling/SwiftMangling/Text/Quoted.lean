import SwiftMangling.Text.Printable

/-!
Quoted text. The quotes are single unless the text has single quotes and no double ones; what could
not be read back or cannot be shown is escaped.
-/

namespace SwiftMangling.Text

def hexDigit (value : Nat) : Char :=
  if value < 10 then Char.ofNat (0x30 + value) else Char.ofNat (0x61 + (value - 10))

/-- A number in lower-case hexadecimal digits, of which there are a given number. -/
def hex : Nat → Nat → List Char
  | 0, _ => []
  | width + 1, n => hex width (n / 16) ++ [hexDigit (n % 16)]

/-- An escape of a letter and hexadecimal digits. -/
def hexEscape (letter : Char) (width n : Nat) : Text :=
  ('\\' :: letter :: hex width n).map CodePoint.ofChar

/-- The escape of a byte. -/
def byteEscape (b : UInt8) : Text :=
  hexEscape 'x' 2 b.toNat

/-- The escape of a character by its number, as short as the number allows. -/
def numberEscape (c : CodePoint) : Text :=
  if c.val < 0x100 then hexEscape 'x' 2 c.val
  else if c.val < 0x10000 then hexEscape 'u' 4 c.val
  else hexEscape 'U' 8 c.val

/-- A character inside quotes, with a rule for what can be shown. -/
def quotedChar (quote : CodePoint) (shown : CodePoint → Bool) (c : CodePoint) : Text :=
  if c = quote ∨ c = CodePoint.ofChar '\\' then [CodePoint.ofChar '\\', c]
  else if c = .ofChar '\n' then "\\n"
  else if c = .ofChar '\r' then "\\r"
  else if c = .ofChar '\t' then "\\t"
  else if shown c then [c]
  else numberEscape c

/-- The quote that a text gets. -/
def quoteOf (t : Text) : CodePoint :=
  let single : CodePoint := .ofChar '\x27'
  let double : CodePoint := .ofChar '\x22'
  if single ∈ t ∧ double ∉ t then double else single

def quotedWith (shown : CodePoint → Bool) (t : Text) : Text :=
  let quote := quoteOf t
  quote :: t.flatMap (quotedChar quote shown) ++ [quote]

def quoted (t : Text) : Text :=
  quotedWith isPrintable t

/-- Quoted bytes: only the printable characters of ASCII are shown. -/
def quotedBytes (bs : Bytes) : Text :=
  "b" ++ quotedWith (fun c => 0x20 ≤ c.val && c.val < 0x7F) (ofBytes bs)

end SwiftMangling.Text
