import SwiftMangling.Mangle.TypeExpr

/-!
Entities to be mangled: functions, variables and initializers in their contexts, with accessors,
closures and the other members that have no name of their own.
-/

namespace SwiftMangling.Mangle

open Writer

/-- The name of a declaration. -/
inductive DeclName where
  | plain (name : Bytes)
  /-- One of the namesakes in a function. -/
  | numbered (number : Nat) (name : Bytes)
  /-- A name that is private to a file. -/
  | inFile (file name : Bytes)
  deriving DecidableEq, Repr, Inhabited

namespace DeclName

def code : DeclName → Bytes
  | plain name => identifier name
  | numbered number name => ascii "L" ++ index number ++ identifier name
  | inFile file name => ascii "P" ++ identifier file ++ identifier name

def tree : DeclName → Node
  | plain name => nameNode .identifier name
  | numbered number name =>
    .branch .localDeclName [.numbered .number number, nameNode .identifier name]
  | inFile file name =>
    .branch .privateDeclName [nameNode .identifier file, nameNode .identifier name]

/-- What an accessor hangs off: a variable, or a subscript for the reserved name, of which only the
file is kept. -/
def accessed (context type : Node) (declName : DeclName) : Node :=
  match declName with
  | plain name =>
    if name = ascii "subscript" then .branch .subscript [context, type]
    else .branch .variableDecl [context, declName.tree, type]
  | inFile file name =>
    if name = ascii "subscript" then
      .branch .subscript [context, type, .branch .privateDeclName [nameNode .identifier file]]
    else .branch .variableDecl [context, declName.tree, type]
  | numbered _ _ => .branch .variableDecl [context, declName.tree, type]

end DeclName

/-- The kinds of addressors by who keeps the storage alive. -/
inductive Ownership where
  | owning
  | nativeOwning
  | nativePinning
  | unowned
  deriving DecidableEq, Repr, Inhabited

inductive Accessor where
  | getter
  | globalGetter
  | setter
  | materializeForSet
  | willSet
  | didSet
  | read
  | modify
  | addressor (isMutable : Bool) (ownership : Ownership)
  deriving DecidableEq, Repr, Inhabited

namespace Accessor

def code : Accessor → Bytes
  | getter => ascii "g"
  | globalGetter => ascii "G"
  | setter => ascii "s"
  | materializeForSet => ascii "m"
  | willSet => ascii "w"
  | didSet => ascii "W"
  | read => ascii "r"
  | modify => ascii "M"
  | addressor isMutable ownership =>
    ascii (if isMutable then "a" else "l") ++
      match ownership with
      | .owning => ascii "O"
      | .nativeOwning => ascii "o"
      | .nativePinning => ascii "p"
      | .unowned => ascii "u"

def kind : Accessor → Kind
  | getter => .getter
  | globalGetter => .globalGetter
  | setter => .setter
  | materializeForSet => .materializeForSet
  | willSet => .willSet
  | didSet => .didSet
  | read => .readAccessor
  | modify => .modifyAccessor
  | addressor true .owning => .owningMutableAddressor
  | addressor true .nativeOwning => .nativeOwningMutableAddressor
  | addressor true .nativePinning => .nativePinningMutableAddressor
  | addressor true .unowned => .unsafeMutableAddressor
  | addressor false .owning => .owningAddressor
  | addressor false .nativeOwning => .nativeOwningAddressor
  | addressor false .nativePinning => .nativePinningAddressor
  | addressor false .unowned => .unsafeAddressor

end Accessor

/-- What an entity is in its context. -/
inductive Member where
  | named (name : DeclName) (type : TypeExpr)
  | accessor (which : Accessor) (name : DeclName) (type : TypeExpr)
  | allocator (type : TypeExpr)
  | constructor (type : TypeExpr)
  | deallocator
  | destructor
  | ivarInitializer
  | ivarDestroyer
  | closure (isExplicit : Bool) (number : Nat) (type : TypeExpr)
  | defaultArgument (number : Nat)
  | initialValue
  deriving Inhabited

namespace Member

def write : Member → Writer
  | named name type => emit name.code ++ type.write
  | accessor which name type => emit (which.code ++ name.code) ++ type.write
  | allocator type => emit (ascii "C") ++ type.write
  | constructor type => emit (ascii "c") ++ type.write
  | deallocator => emit (ascii "D")
  | destructor => emit (ascii "d")
  | ivarInitializer => emit (ascii "e")
  | ivarDestroyer => emit (ascii "E")
  | closure isExplicit number type =>
    emit (ascii (if isExplicit then "U" else "u") ++ index number) ++ type.write
  | defaultArgument number => emit (ascii "A" ++ index number)
  | initialValue => emit (ascii "i")

/-- The tree of a member; `kind` is that of a member under its own name. -/
def tree (kind : Kind) (context : Node) : Member → Node
  | named name type => .branch kind [context, name.tree, type.tree]
  | accessor which name type => .branch which.kind [name.accessed context type.tree]
  | allocator type => .branch .allocator [context, type.tree]
  | constructor type => .branch .constructor [context, type.tree]
  | deallocator => .branch .deallocator [context]
  | destructor => .branch .destructor [context]
  | ivarInitializer => .branch .ivarInitializer [context]
  | ivarDestroyer => .branch .ivarDestroyer [context]
  | closure isExplicit number type =>
    .branch (if isExplicit then .explicitClosure else .implicitClosure)
      [context, .numbered .number number, type.tree]
  | defaultArgument number =>
    .branch .defaultArgumentInitializer [context, .numbered .number number]
  | initialValue => .branch .initializer [context]

end Member

/-- The kinds of entities. -/
inductive EntityKind where
  | function
  | variableDecl
  | initializer
  deriving DecidableEq, Repr, Inhabited

namespace EntityKind

def letter : EntityKind → Bytes
  | function => ascii "F"
  | variableDecl => ascii "v"
  | initializer => ascii "I"

def kind : EntityKind → Kind
  | function => .function
  | variableDecl => .variableDecl
  | initializer => .initializer

/-- Whether a member can stand in an entity: only functions and variables have names of their own,
and only initializers are those of an argument or a variable. -/
def Admits : EntityKind → Member → Prop
  | initializer, .named _ _ => False
  | function, .defaultArgument _ => False
  | function, .initialValue => False
  | variableDecl, .defaultArgument _ => False
  | variableDecl, .initialValue => False
  | _, _ => True

end EntityKind

/-- Where a declaration stands. -/
inductive Context where
  | scope (path : Scope)
  /-- An extension by a module. -/
  | extended (definer : Bytes) (context : Context)
  | entity (isStatic : Bool) (kind : EntityKind) (context : Context) (member : Member)
  deriving Inhabited

namespace Context

def staticTree (isStatic : Bool) (entity : Node) : Node :=
  if isStatic then .branch .staticMember [entity] else entity

def write : Context → Writer
  | scope path => path.write
  | extended definer context => emit (ascii "E") ++ (Scope.root definer).write ++ context.write
  | entity isStatic kind context member =>
    emit ((if isStatic then ascii "Z" else []) ++ kind.letter) ++ context.write ++ member.write

def tree : Context → Node
  | scope path => path.tree
  | extended definer context => .branch .extensionContext [(Scope.root definer).tree, context.tree]
  | entity isStatic kind context member =>
    staticTree isStatic (member.tree kind.kind context.tree)

end Context

/-- An entity to be mangled. -/
structure Entity where
  isStatic : Bool
  kind : EntityKind
  context : Context
  member : Member
  deriving Inhabited

namespace Entity

def asContext (entity : Entity) : Context :=
  .entity entity.isStatic entity.kind entity.context entity.member

def write (entity : Entity) : Writer :=
  entity.asContext.write

def tree (entity : Entity) : Node :=
  entity.asContext.tree

/-- The mangling of an entity alone. -/
def mangle (entity : Entity) : Bytes :=
  (entity.write []).1

end Entity

end SwiftMangling.Mangle
