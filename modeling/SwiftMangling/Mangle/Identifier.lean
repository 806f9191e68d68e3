import SwiftMangling.Mangle.Writer
import SwiftMangling.Punycode.Encode

/-!
Identifiers to be mangled. A name is written as its bytes or in punycode, after the number of the bytes
that are written. An operator has letters in place of its marks, and one letter for its fixity.
-/

namespace SwiftMangling

namespace Operator

/-- The ASCII characters of operators. -/
def marks : Text :=
  "&@/=><*!|+?%-~^."

/-- The letter for a mark. What is not ASCII stands for itself. -/
def letter (c : CodePoint) : CodePoint :=
  if 0x80 ≤ c.val then c
  else
    CodePoint.ofChar <| match Char.ofNat c.val with
      | '&' => 'a'
      | '@' => 'c'
      | '/' => 'd'
      | '=' => 'e'
      | '>' => 'g'
      | '<' => 'l'
      | '*' => 'm'
      | '!' => 'n'
      | '|' => 'o'
      | '+' => 'p'
      | '?' => 'q'
      | '%' => 'r'
      | '-' => 's'
      | '~' => 't'
      | '^' => 'x'
      | '.' => 'z'
      | other => other

end Operator

namespace Mangle

/-- On which side of its operands an operator stands. -/
inductive Fixity where
  | before
  | after
  | between
  deriving DecidableEq, Repr, Inhabited

namespace Fixity

def letter : Fixity → Char
  | before => 'p'
  | after => 'P'
  | between => 'i'

def kind : Fixity → Kind
  | before => .prefixOperator
  | after => .postfixOperator
  | between => .infixOperator

end Fixity

/-- A name, which may be that of an operator, and how it is to be spelled. Only a plain name need not be
UTF-8. -/
inductive Identifier where
  | plain (name : Bytes)
  | operator (fixity : Fixity) (name : Text)
  | punycoded (name : Text)
  | punycodedOperator (fixity : Fixity) (name : Text)
  deriving DecidableEq, Repr, Inhabited

namespace Identifier

/-- The marks before the number. -/
def marks : Identifier → Bytes
  | plain _ => []
  | operator fixity _ => ascii "o" ++ [fixity.letter.toUInt8]
  | punycoded _ => ascii "X"
  | punycodedOperator fixity _ => ascii "Xo" ++ [fixity.letter.toUInt8]

/-- The bytes that stand for the name. -/
def written : Identifier → Bytes
  | plain name => name
  | operator _ name => Utf8.encode (name.map Operator.letter)
  | punycoded name => Utf8.encode (Punycode.encode name)
  | punycodedOperator _ name => Utf8.encode (Punycode.encode (name.map Operator.letter))

def code (id : Identifier) : Bytes :=
  id.marks ++ identifier id.written

def tree : Identifier → Node
  | plain name => nameNode .identifier name
  | operator fixity name => .named fixity.kind name
  | punycoded name => .named .identifier name
  | punycodedOperator fixity name => .named fixity.kind name

end Identifier

end Mangle

end SwiftMangling
