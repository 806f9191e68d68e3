import SwiftMangling.MangledName
import SwiftMangling.Node.Basic
import SwiftMangling.Position

/-!
Arenas of nodes under construction. A node is a cell of an arena and refers to its children by their
numbers alone, which are looked up in its own arena. So a child is what it was given only if it
comes from the arena of its parent.
-/

namespace SwiftMangling

/-- A node of an arena. -/
structure Cell where
  kind : Kind
  payload : Payload
  /-- The numbers of the children. -/
  children : List Nat := []
  /-- Whether the text is the written form of bytes. Such a text has its quotes already. -/
  ofBytes : Bool := false
  deriving DecidableEq, Repr, Inhabited

/-- The cells of one arena in the order of their creation. -/
abbrev Arena := List Cell

/-- A node by its arena and its number there. -/
structure NodeRef where
  arena : Nat
  cell : Nat
  deriving DecidableEq, Repr, Inhabited

/-- Several arenas side by side. -/
structure Arenas where
  all : List Arena
  deriving DecidableEq, Repr, Inhabited

namespace Arenas

/-- Why an operation on arenas has no answer. -/
inductive Fault where
  /-- A second payload, or a child that is missing or of another arena. -/
  | refused
  /-- A child that is not there. -/
  | outOfRange
  /-- A node that is below itself. -/
  | endless
  /-- A number that has more digits than are written. -/
  | overlong
  deriving DecidableEq, Repr

def empty (count : Nat) : Arenas :=
  ⟨List.replicate count []⟩

def arena (arenas : Arenas) (number : Nat) : Arena :=
  arenas.all.getD number []

/-- The number of nodes in an arena. -/
def size (arenas : Arenas) (number : Nat) : Nat :=
  (arenas.arena number).length

def cell? (arenas : Arenas) (ref : NodeRef) : Option Cell :=
  (arenas.arena ref.arena)[ref.cell]?

/-- Adds a cell to an arena. -/
def add (arenas : Arenas) (number : Nat) (cell : Cell) : NodeRef × Arenas :=
  (⟨number, arenas.size number⟩, ⟨arenas.all.modify number (· ++ [cell])⟩)

/-- Adds a node to an arena; it has a text or an index or neither. -/
def create (arenas : Arenas) (number : Nat) (kind : Kind) (text : Option MangledName)
    (index : Option Int) : Except Fault (NodeRef × Arenas) :=
  match text, index with
  | some _, some _ => .error .refused
  | some (.text content), none => .ok (arenas.add number { kind, payload := .text content })
  | some (.bytes content), none =>
    .ok (arenas.add number { kind, payload := .text (Text.quotedBytes content), ofBytes := true })
  | none, some n => .ok (arenas.add number { kind, payload := .index n })
  | none, none => .ok (arenas.add number { kind, payload := .empty })

/-- Adds a child through an arena, which has to be the arena of the child; the parent may be of
another one. -/
def addChild (arenas : Arenas) (number : Nat) (parent : NodeRef) (child : Option NodeRef) :
    Except Fault Arenas :=
  match child with
  | none => .error .refused
  | some child =>
    if child.arena ≠ number then .error .refused
    else
      let push (cell : Cell) : Cell := { cell with children := cell.children ++ [child.cell] }
      .ok ⟨arenas.all.modify parent.arena (·.modify parent.cell push)⟩

/-- A node that is there. -/
def lookUp (arenas : Arenas) (ref : NodeRef) : Except Fault Cell :=
  match arenas.cell? ref with
  | some cell => .ok cell
  | none => .error .outOfRange

/-- The child with a number, as the arena of its parent has it. -/
def childRef (arenas : Arenas) (parent : NodeRef) (number : Nat) : Except Fault NodeRef :=
  let ref : NodeRef := ⟨parent.arena, number⟩
  (arenas.lookUp ref).map fun _ => ref

/-- The children of a node. -/
def children (arenas : Arenas) (ref : NodeRef) : Except Fault (List NodeRef) := do
  let cell ← arenas.lookUp ref
  cell.children.mapM (arenas.childRef ref)

/-- The child at a position; a negative position counts from the end. -/
def child (arenas : Arenas) (ref : NodeRef) (position : Int) : Except Fault NodeRef := do
  let cell ← arenas.lookUp ref
  match Position.item? cell.children position with
  | some number => arenas.childRef ref number
  | none => .error .outOfRange

/-- The number of children of a node. -/
def length (arenas : Arenas) (ref : NodeRef) : Except Fault Nat :=
  (arenas.lookUp ref).map fun cell => cell.children.length

/-- Whether a child is the very node given. -/
def isChild (arenas : Arenas) (ref : NodeRef) (position : Int) (other : NodeRef) :
    Except Fault Bool :=
  (arenas.child ref position).map fun child => child = other

/-- A text, unless an overlong number left none. -/
def written : Option Text → Except Fault Text
  | some t => .ok t
  | none => .error .overlong

/-- A node in one line. -/
def render (arenas : Arenas) (ref : NodeRef) : Except Fault Text := do
  let cell ← arenas.lookUp ref
  let shown : Text ← match cell.payload with
    | .text content => pure (if cell.ofBytes then content else Text.quoted content)
    | .index n => written (Decimal.text? n)
    | .empty => pure ("[" ++ Decimal.text cell.children.length ++ "]")
  pure ("<Node " ++ Text.ofString cell.kind.name ++ " " ++ shown ++ ">")

/-- The tree below a node, within a bound for its height. -/
def treeWithin (arenas : Arenas) : Nat → NodeRef → Except Fault Node
  | 0, _ => .error .endless
  | bound + 1, ref => do
    let cell ← arenas.lookUp ref
    let children ← cell.children.mapM fun number => do
      treeWithin arenas bound (← arenas.childRef ref number)
    pure (.mk cell.kind cell.payload children)

/-- The tree below a node. No path in it is longer than the arena, unless a node is below itself. -/
def tree (arenas : Arenas) (ref : NodeRef) : Except Fault Node :=
  arenas.treeWithin (arenas.size ref.arena + 1) ref

/-- The written form of the tree below a node. -/
def dump (arenas : Arenas) (ref : NodeRef) : Except Fault Text := do
  let tree ← arenas.tree ref
  written tree.dump?

/-- Compares two lists with a comparison that may fault: the first difference decides, and after it
the lengths. -/
def sameAll (same : NodeRef → NodeRef → Except Fault Bool) :
    List NodeRef → List NodeRef → Except Fault Bool
  | [], [] => .ok true
  | a :: as, b :: bs => do
    if ← same a b then sameAll same as bs else pure false
  | _, _ => .ok false

/-- Compares two nodes within a bound for their height; a child is the same as itself without a
look at what is below it. -/
def sameWithin (arenas : Arenas) : Nat → NodeRef → NodeRef → Except Fault Bool
  | 0, _, _ => .error .endless
  | bound + 1, a, b => do
    let x ← arenas.lookUp a
    let y ← arenas.lookUp b
    if x.kind ≠ y.kind ∨ x.payload ≠ y.payload ∨ x.ofBytes ≠ y.ofBytes then pure false
    else
      let xs ← arenas.children a
      let ys ← arenas.children b
      sameAll (fun c d => if c = d then .ok true else sameWithin arenas bound c d) xs ys

/-- Whether two nodes are equal as trees. A comparison that goes deeper than there are pairs of
nodes comes back to a pair for ever. -/
def same (arenas : Arenas) (a b : NodeRef) : Except Fault Bool :=
  arenas.sameWithin (arenas.size a.arena * arenas.size b.arena + 1) a b

end Arenas

end SwiftMangling
