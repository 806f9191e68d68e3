import SwiftMangling.Mangle.TypeExpr

/-!
Nests of declared types with generic arguments. The mangling names the whole nest first, and then
gives a list of arguments for each level, outermost first.
-/

namespace SwiftMangling.Mangle

open Writer

/-- A declared type in a nest, with its arguments. -/
structure NestLevel where
  kind : DeclKind
  name : Bytes
  arguments : List TypeExpr
  deriving Inhabited

/-- Declared types in a module, each inside the one before. -/
structure Nest where
  module : Bytes
  levels : List NestLevel
  deriving Inhabited

namespace Nest

/-- The innermost type without arguments. -/
def scope (nest : Nest) : Scope :=
  nest.levels.foldl (fun parent level => .member parent level.kind level.name) (.root nest.module)

def writeArguments : List NestLevel → Writer
  | [] => emit []
  | level :: levels =>
    TypeExpr.writeAll level.arguments ++ emit (ascii "_") ++ writeArguments levels

def write (nest : Nest) : Writer :=
  emit (ascii "G") ++ nest.scope.write ++ writeArguments nest.levels

/-- The kind of a declared type once it has arguments. -/
def boundKind : DeclKind → Kind
  | .classDecl => .boundGenericClass
  | .structureDecl => .boundGenericStructure
  | .enumDecl => .boundGenericEnum
  | .protocolDecl => .protocolDecl

/-- A level on its parent; without arguments it is just the declared type. -/
def levelTree (parent : Node) (level : NestLevel) : Node :=
  let declared : Node := .branch level.kind.kind [parent, nameNode .identifier level.name]
  if level.arguments.isEmpty then declared
  else
    .branch (boundKind level.kind)
      [.branch .type [declared], .branch .typeList (TypeExpr.trees level.arguments)]

def tree (nest : Nest) : Node :=
  .branch .type [nest.levels.foldl levelTree (nameNode .moduleName nest.module)]

/-- The mangling of a nest alone. -/
def mangle (nest : Nest) : Bytes :=
  (nest.write []).1

end Nest

end SwiftMangling.Mangle
