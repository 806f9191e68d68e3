import SwiftMangling.Grammar.Natural
import SwiftMangling.Grammar.Operator
import SwiftMangling.Punycode.Decode

/-!
Identifiers and the names of declarations. An identifier is a number of bytes and those bytes; an
`X` before it says that they are punycode, and an `o` with a fixity that they name an operator.
-/

namespace SwiftMangling.Grammar

/-- The name in the bytes of an identifier: never empty, and with its operator letters read. Until
the end a name that is not punycoded has one character for each byte. -/
def identifierText (punycoded operator : Bool) (bytes : Bytes) : Parser Text := do
  let raw := Text.ofBytes bytes
  let chars ← (if punycoded then orRefuse (Punycode.decode? raw) else pure raw)
  if chars.isEmpty then refuse
  else
    let chars ← (if operator then orRefuse (Operator.ofLetters? chars) else pure chars)
    if punycoded then pure chars else textOfChars chars

/-- The kind of an identifier; where one kind is required an operator is refused. -/
def identifierKind (required : Option Kind) (operator : Bool) : Parser Kind :=
  match operator, required with
  | false, some kind => pure kind
  | false, none => pure .identifier
  | true, some _ => refuse
  | true, none => do
    let letter ← next
    orRefuse (Operator.fixity? letter)

/-- An identifier of the required kind, or of the kind that its spelling gives. -/
def identifier (required : Option Kind := none) : Parser Node := do
  if ← atEnd then refuse
  else
    let punycoded ← accept "X"
    let operator ← accept "o"
    let kind ← identifierKind required operator
    let length ← natural
    let bytes ← advance length
    let text ← identifierText punycoded operator bytes
    named kind text

/-- A name, alone or with what tells it apart from its namesakes: an index for a local declaration,
an identifier of the file for a private one. -/
def declName : Parser Node := do
  if ← accept "L" then
    let discriminator ← indexNode
    let name ← identifier
    branch .localDeclName [discriminator, name]
  else if ← accept "P" then
    let discriminator ← identifier
    let name ← identifier
    branch .privateDeclName [discriminator, name]
  else identifier

end SwiftMangling.Grammar
