import SwiftMangling.Grammar.Parser
import SwiftMangling.Text.Utf8

/-!
Putting trees together. A node is made with a text or an index but not both, every child that is
added to it has to be there, and so has every child that is looked up. All reading stops where one
of these rules is broken.
-/

namespace SwiftMangling.Grammar

/-- Makes a node with its children in order. -/
def build (kind : Kind) (text : Option Text) (index : Option Int)
    (children : List (Option Node)) : Parser Node := do
  let payload ← orBreach .secondPayload (Payload.ofParts? text index)
  let children ← orBreach .missingChild (children.mapM id)
  pure (.mk kind payload children)

/-- A node that carries nothing but its children. -/
def branch (kind : Kind) (children : List (Option Node)) : Parser Node :=
  build kind none none children

def named (kind : Kind) (content : Text) (children : List (Option Node) := []) : Parser Node :=
  build kind (some content) none children

def numbered (kind : Kind) (number : Int) (children : List (Option Node) := []) : Parser Node :=
  build kind none (some number) children

/-- Adds a child after the others. -/
def addChild (parent : Node) (child : Option Node) : Parser Node := do
  let child ← orBreach .missingChild child
  pure (parent.push child)

/-- The child at a position. -/
def childAt (node : Node) (position : Nat) : Parser Node :=
  orBreach .noSuchChild node.children[position]?

/-- The text in the bytes that characters stand for, one for each. -/
def textOfChars (chars : Text) : Parser Text := do
  let bytes ← orBreach .notByte (Text.toBytes? chars)
  pure (Utf8.decode bytes)

/-- What is read after a mark, if the mark comes next. -/
def afterMark (mark : Text) (p : Parser Node) : Parser (Option Node) := do
  if ← accept mark then
    let node ← p
    pure (some node)
  else pure none

end SwiftMangling.Grammar
