import SwiftMangling.Decimal
import SwiftMangling.Node.Kind

/-!
Symbol trees. A node has a kind, at most one payload and its children in order; it is written as
one line, with the lines of its children below it, indented by two spaces more.
-/

namespace SwiftMangling

/-- What a node carries besides its children. -/
inductive Payload where
  | empty
  | text (content : Text)
  | index (number : Int)
  deriving DecidableEq, Repr, Inhabited

namespace Payload

def text? : Payload → Option Text
  | text content => some content
  | _ => none

def index? : Payload → Option Int
  | index number => some number
  | _ => none

/-- What carries the parts that there are; a text and an index together are too much. -/
def ofParts? : Option Text → Option Int → Option Payload
  | some _, some _ => none
  | some content, none => some (text content)
  | none, some number => some (index number)
  | none, none => some empty

/-- The part of a line that follows the kind; the content of a text is written as it is. -/
def suffix : Payload → Text
  | empty => []
  | text content => ", text=\"" ++ content ++ "\""
  | index number => ", index=" ++ Decimal.text number

/-- Whether the payload has no overlong number. -/
def isWritable : Payload → Bool
  | index number => Decimal.isWritable number
  | _ => true

end Payload

/-- A symbol tree. -/
inductive Node where
  | mk (kind : Kind) (payload : Payload) (children : List Node)
  deriving Repr, Inhabited

namespace Node

def kind : Node → Kind
  | mk kind _ _ => kind

def payload : Node → Payload
  | mk _ payload _ => payload

def children : Node → List Node
  | mk _ _ children => children

def text? (node : Node) : Option Text :=
  node.payload.text?

/-- A node that carries nothing but its children. -/
def branch (kind : Kind) (children : List Node) : Node :=
  mk kind .empty children

def named (kind : Kind) (content : Text) (children : List Node := []) : Node :=
  mk kind (.text content) children

def numbered (kind : Kind) (number : Int) (children : List Node := []) : Node :=
  mk kind (.index number) children

/-- Adds a child after the others. -/
def push : Node → Node → Node
  | mk kind payload children, child => mk kind payload (children ++ [child])

/-- The line of a node at a depth, without what it carries below. -/
def headLine (depth : Nat) (kind : Kind) (payload : Payload) : Text :=
  let indent : Text := List.replicate (2 * depth) CodePoint.space
  indent ++ "kind=" ++ Text.ofString kind.name ++ payload.suffix

mutual

/-- The lines of a tree whose root stands at a depth. -/
def lines (depth : Nat) : Node → List Text
  | mk kind payload children => headLine depth kind payload :: linesAll (depth + 1) children

/-- The lines of a list of trees that stand at one depth. -/
def linesAll (depth : Nat) : List Node → List Text
  | [] => []
  | node :: nodes => lines depth node ++ linesAll depth nodes

end

/-- The written form of a tree, without a final line break. -/
def dump (node : Node) : Text :=
  Text.join [Text.newline] (node.lines 0)

mutual

/-- Whether no node of a tree has an overlong number. -/
def isWritable : Node → Bool
  | mk _ payload children => payload.isWritable && areWritable children

def areWritable : List Node → Bool
  | [] => true
  | node :: nodes => isWritable node && areWritable nodes

end

/-- The written form of a tree, unless a number in it is overlong. -/
def dump? (node : Node) : Option Text :=
  if node.isWritable then some node.dump else none

end Node

end SwiftMangling
