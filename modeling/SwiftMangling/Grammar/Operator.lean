import SwiftMangling.Text.Basic
import SwiftMangling.Node.Kind

/-!
Operator names. Each ASCII mark of an operator is mangled as a letter, and what is not ASCII stands
for itself.
-/

namespace SwiftMangling.Operator

/-- The kind of an operator by the letter of its fixity. -/
def fixity? : Char → Option Kind
  | 'p' => some .prefixOperator
  | 'P' => some .postfixOperator
  | 'i' => some .infixOperator
  | _ => none

/-- The mark that a letter stands for. -/
def mark? : Char → Option Char
  | 'a' => some '&'
  | 'c' => some '@'
  | 'd' => some '/'
  | 'e' => some '='
  | 'g' => some '>'
  | 'l' => some '<'
  | 'm' => some '*'
  | 'n' => some '!'
  | 'o' => some '|'
  | 'p' => some '+'
  | 'q' => some '?'
  | 'r' => some '%'
  | 's' => some '-'
  | 't' => some '~'
  | 'x' => some '^'
  | 'z' => some '.'
  | _ => none

/-- Reads the letters of a name; its characters beyond ASCII are kept. -/
def ofLetters? (letters : Text) : Option Text :=
  letters.mapM fun c =>
    if 0x80 ≤ c.val then some c else (mark? (Char.ofNat c.val)).map CodePoint.ofChar

end SwiftMangling.Operator
