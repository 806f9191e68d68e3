import SwiftMangling.Node.Basic
import SwiftMangling.References
import SwiftMangling.Text.Utf8

/-!
Writing manglings. A mangling is written from left to right along with a table of the modules and
declarations that have been spelled out; one that is in the table is written as a reference.
-/

namespace SwiftMangling.Mangle

/-- The bytes of an ASCII literal. -/
def ascii (s : String) : Bytes :=
  s.toList.map Char.toUInt8

def natural (n : Nat) : Bytes :=
  (Nat.toDigits 10 n).map Char.toUInt8

/-- An index is written one less than its value, with nothing for zero, and ends in an
underscore. -/
def index : Nat → Bytes
  | 0 => ascii "_"
  | n + 1 => natural n ++ ascii "_"

/-- A plain identifier: its length and its bytes. -/
def identifier (name : Bytes) : Bytes :=
  natural name.length ++ name

/-- The node of a plain identifier. -/
def nameNode (kind : Kind) (name : Bytes) : Node :=
  .named kind (Utf8.decode name)

/-- The letter of a declaration and the kind of its node. -/
inductive DeclKind where
  | classDecl
  | structureDecl
  | enumDecl
  | protocolDecl
  deriving DecidableEq, Repr, Inhabited

namespace DeclKind

def letter : DeclKind → Bytes
  | classDecl => ascii "C"
  | structureDecl => ascii "V"
  | enumDecl => ascii "O"
  | protocolDecl => ascii "P"

def kind : DeclKind → Kind
  | classDecl => .classDecl
  | structureDecl => .structureDecl
  | enumDecl => .enumDecl
  | protocolDecl => .protocolDecl

end DeclKind

/-- A module, or a declaration at the end of a path of declarations in a module. -/
inductive Scope where
  | root (name : Bytes)
  | member (parent : Scope) (kind : DeclKind) (name : Bytes)
  deriving DecidableEq, Repr, Inhabited

/-- Writes bytes with a view of the table, and may extend the table. -/
def Writer := References Scope → Bytes × References Scope

namespace Writer

def emit (bytes : Bytes) : Writer :=
  fun table => (bytes, table)

def append (first second : Writer) : Writer :=
  fun table =>
    let (front, table) := first table
    let (back, table) := second table
    (front ++ back, table)

instance : Append Writer := ⟨append⟩

/-- Refers to a scope that is in the table; spells it out and adds it otherwise. -/
def refer (scope : Scope) (spelled : Writer) : Writer :=
  fun table =>
    match table.idxOf? scope with
    | some position => (ascii "S" ++ index position, table)
    | none =>
      let (bytes, table) := spelled table
      (bytes, References.record table scope)

end Writer

namespace Scope

open Writer

/-- The module of the standard library, which has a letter of its own and is never in the table. -/
def stdlib : Scope :=
  root (ascii "Swift")

def write : Scope → Writer
  | root name =>
    if root name = stdlib then emit (ascii "s") else refer (root name) (emit (identifier name))
  | member parent kind name =>
    refer (member parent kind name) (emit kind.letter ++ write parent ++ emit (identifier name))

/-- A protocol where only a protocol can stand: it has no letter. -/
def writeProtocol (parent : Scope) (name : Bytes) : Writer :=
  refer (member parent .protocolDecl name) (write parent ++ emit (identifier name))

def tree : Scope → Node
  | root name => nameNode .moduleName name
  | member parent kind name => .branch kind.kind [tree parent, nameNode .identifier name]

end Scope

end SwiftMangling.Mangle
