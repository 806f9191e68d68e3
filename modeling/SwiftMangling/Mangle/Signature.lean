import SwiftMangling.Mangle.TypeExpr

/-!
Generic signatures to be mangled: the number of parameters at each depth, and requirements on them.
-/

namespace SwiftMangling.Mangle

open Writer

/-- A constraint on the layout of a type. -/
inductive Layout where
  | unknown
  | referenceCounted
  | nativeReferenceCounted
  | trivial
  | trivialOfSize (size : Nat)
  | trivialOfSizeAligned (size alignment : Nat)
  | trivialAtMost (size : Nat)
  | trivialAtMostAligned (size alignment : Nat)
  deriving DecidableEq, Repr, Inhabited

namespace Layout

def letter : Layout → String
  | unknown => "U"
  | referenceCounted => "R"
  | nativeReferenceCounted => "N"
  | trivial => "T"
  | trivialOfSize _ => "e"
  | trivialOfSizeAligned _ _ => "E"
  | trivialAtMost _ => "m"
  | trivialAtMostAligned _ _ => "M"

def numbers : Layout → List Nat
  | trivialOfSize size => [size]
  | trivialOfSizeAligned size alignment => [size, alignment]
  | trivialAtMost size => [size]
  | trivialAtMostAligned size alignment => [size, alignment]
  | _ => []

/-- Numbers with an underscore between each two. -/
def numbersCode (numbers : List Nat) : Bytes :=
  ((numbers.map natural).intersperse (ascii "_")).flatten

def code (layout : Layout) : Bytes :=
  ascii layout.letter ++ numbersCode layout.numbers

end Layout

/-- What is required of a parameter. -/
inductive Constraint where
  | sameType (type : TypeExpr)
  | layout (layout : Layout)
  /-- Conformance to a protocol of a module. -/
  | conforms (module name : Bytes)
  deriving Inhabited

/-- A constraint on the parameter with an index at a depth. -/
structure Requirement where
  depth : Nat
  index : Nat
  constraint : Constraint
  deriving Inhabited

namespace Requirement

def writeConstraint : Constraint → Writer
  | .sameType type => emit (ascii "z") ++ type.write
  | .layout layout => emit (ascii "l" ++ layout.code)
  | .conforms module name => Scope.writeProtocol (.root module) name

def write (requirement : Requirement) : Writer :=
  emit (paramIndex requirement.depth requirement.index) ++ writeConstraint requirement.constraint

def writeAll : List Requirement → Writer
  | [] => emit []
  | requirement :: rest => requirement.write ++ writeAll rest

def tree (requirement : Requirement) : Node :=
  let param : Node := .branch .type [paramTree requirement.depth requirement.index]
  match requirement.constraint with
  | .sameType type => .branch .dependentGenericSameTypeRequirement [param, type.tree]
  | .layout layout =>
    .branch .dependentGenericLayoutRequirement
      (param :: .named .identifier layout.letter ::
        layout.numbers.map fun (n : Nat) => .numbered .number n)
  | .conforms module name =>
    .branch .dependentGenericConformanceRequirement [param, protocolTree module name]

end Requirement

/-- A generic signature; there is at least one depth. -/
structure Signature where
  counts : List Nat
  requirements : List Requirement
  deriving Inhabited

namespace Signature

def countCode : Nat → Bytes
  | 0 => ascii "z"
  | n + 1 => index n

/-- The counts; a single parameter goes without saying. -/
def countsCode (counts : List Nat) : Bytes :=
  if counts = [1] then [] else counts.flatMap countCode

def write (signature : Signature) : Writer :=
  emit (countsCode signature.counts ++ if signature.requirements.isEmpty then [] else ascii "R")
    ++ Requirement.writeAll signature.requirements ++ emit (ascii "r")

def tree (kind : Kind) (signature : Signature) : Node :=
  .branch kind
    (signature.counts.map (fun (n : Nat) => .numbered .dependentGenericParamCount n)
      ++ signature.requirements.map Requirement.tree)

/-- A type under a signature. -/
def writeType (signature : Signature) (type : TypeExpr) : Writer :=
  emit (ascii "u") ++ signature.write ++ type.write

def typeTree (signature : Signature) (type : TypeExpr) : Node :=
  .branch .type
    [.branch .dependentGenericType [signature.tree .dependentGenericSignature, type.tree]]

end Signature

end SwiftMangling.Mangle
