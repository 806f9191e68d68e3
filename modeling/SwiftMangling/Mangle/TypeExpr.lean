import SwiftMangling.Mangle.Writer

/-!
Types to be mangled, with their mangling and their tree.
-/

namespace SwiftMangling.Mangle

open Writer

/-- The types that the compiler itself provides. -/
inductive BuiltinType where
  | bridgeObject
  | unsafeValueBuffer
  | unknownObject
  | nativeObject
  | rawPointer
  | silToken
  | word
  | float (size : Nat)
  | int (size : Nat)
  | intVector (elements size : Nat)
  | floatVector (elements size : Nat)
  | pointerVector (elements : Nat)
  deriving DecidableEq, Repr, Inhabited

namespace BuiltinType

/-- The mangling without the `B` before it. -/
def code : BuiltinType → Bytes
  | bridgeObject => ascii "b"
  | unsafeValueBuffer => ascii "B"
  | unknownObject => ascii "O"
  | nativeObject => ascii "o"
  | rawPointer => ascii "p"
  | silToken => ascii "t"
  | word => ascii "w"
  | float size => ascii "f" ++ natural size ++ ascii "_"
  | int size => ascii "i" ++ natural size ++ ascii "_"
  | intVector elements size =>
    ascii "v" ++ natural elements ++ ascii "Bi" ++ natural size ++ ascii "_"
  | floatVector elements size =>
    ascii "v" ++ natural elements ++ ascii "Bf" ++ natural size ++ ascii "_"
  | pointerVector elements => ascii "v" ++ natural elements ++ ascii "Bp"

def name : BuiltinType → Text
  | bridgeObject => "Builtin.BridgeObject"
  | unsafeValueBuffer => "Builtin.UnsafeValueBuffer"
  | unknownObject => "Builtin.UnknownObject"
  | nativeObject => "Builtin.NativeObject"
  | rawPointer => "Builtin.RawPointer"
  | silToken => "Builtin.SILToken"
  | word => "Builtin.Word"
  | float size => "Builtin.FPIEEE" ++ Decimal.text size
  | int size => "Builtin.Int" ++ Decimal.text size
  | intVector elements size =>
    "Builtin.Vec" ++ Decimal.text elements ++ "xInt" ++ Decimal.text size
  | floatVector elements size =>
    "Builtin.Vec" ++ Decimal.text elements ++ "xFloat" ++ Decimal.text size
  | pointerVector elements => "Builtin.Vec" ++ Decimal.text elements ++ "xRawPointer"

def tree (type : BuiltinType) : Node :=
  .named .builtinTypeName type.name

end BuiltinType

/-- The types of the standard library that have a letter of their own. -/
inductive StandardType where
  | array
  | bool
  | unicodeScalar
  | double
  | float
  | int
  | unsafeRawPointer
  | unsafeMutableRawPointer
  | unsafePointer
  | unsafeMutablePointer
  | optional
  | implicitlyUnwrappedOptional
  | unsafeBufferPointer
  | unsafeMutableBufferPointer
  | string
  | uint
  deriving DecidableEq, Repr, Inhabited

namespace StandardType

def letter : StandardType → Bytes
  | array => ascii "a"
  | bool => ascii "b"
  | unicodeScalar => ascii "c"
  | double => ascii "d"
  | float => ascii "f"
  | int => ascii "i"
  | unsafeRawPointer => ascii "V"
  | unsafeMutableRawPointer => ascii "v"
  | unsafePointer => ascii "P"
  | unsafeMutablePointer => ascii "p"
  | optional => ascii "q"
  | implicitlyUnwrappedOptional => ascii "Q"
  | unsafeBufferPointer => ascii "R"
  | unsafeMutableBufferPointer => ascii "r"
  | string => ascii "S"
  | uint => ascii "u"

def name : StandardType → Text
  | array => "Array"
  | bool => "Bool"
  | unicodeScalar => "UnicodeScalar"
  | double => "Double"
  | float => "Float"
  | int => "Int"
  | unsafeRawPointer => "UnsafeRawPointer"
  | unsafeMutableRawPointer => "UnsafeMutableRawPointer"
  | unsafePointer => "UnsafePointer"
  | unsafeMutablePointer => "UnsafeMutablePointer"
  | optional => "Optional"
  | implicitlyUnwrappedOptional => "ImplicitlyUnwrappedOptional"
  | unsafeBufferPointer => "UnsafeBufferPointer"
  | unsafeMutableBufferPointer => "UnsafeMutableBufferPointer"
  | string => "String"
  | uint => "UInt"

def isEnum : StandardType → Bool
  | optional => true
  | implicitlyUnwrappedOptional => true
  | _ => false

def kind (type : StandardType) : Kind :=
  if type.isEnum then .enumDecl else .structureDecl

/-- The kind of the type once it has arguments. -/
def boundKind (type : StandardType) : Kind :=
  if type.isEnum then .boundGenericEnum else .boundGenericStructure

def tree (type : StandardType) : Node :=
  .branch type.kind [.named .moduleName "Swift", .named .identifier type.name]

end StandardType

inductive FunctionKind where
  | thick
  | uncurried
  | block
  | cPointer
  | autoClosure
  | thin
  deriving DecidableEq, Repr, Inhabited

namespace FunctionKind

def letter : FunctionKind → Bytes
  | thick => ascii "F"
  | uncurried => ascii "f"
  | block => ascii "b"
  | cPointer => ascii "c"
  | autoClosure => ascii "K"
  | thin => ascii "Xf"

def kind : FunctionKind → Kind
  | thick => .functionType
  | uncurried => .uncurriedFunctionType
  | block => .objCBlock
  | cPointer => .cFunctionPointer
  | autoClosure => .autoClosureType
  | thin => .thinFunctionType

end FunctionKind

/-- The representation of a metatype. -/
inductive Representation where
  | thin
  | thick
  | objC
  deriving DecidableEq, Repr, Inhabited

namespace Representation

def letter : Representation → Bytes
  | thin => ascii "t"
  | thick => ascii "T"
  | objC => ascii "o"

def tree : Representation → Node
  | thin => .named .metatypeRepresentation "@thin"
  | thick => .named .metatypeRepresentation "@thick"
  | objC => .named .metatypeRepresentation "@objc_metatype"

end Representation

/-- What is said of a single type. -/
inductive Modifier where
  | metatype
  | represented (representation : Representation)
  | existentialMetatype
  | dynamicSelf
  | unowned
  | unmanaged
  | weak
  deriving DecidableEq, Repr, Inhabited

namespace Modifier

def code : Modifier → Bytes
  | metatype => ascii "M"
  | represented representation => ascii "XM" ++ representation.letter
  | existentialMetatype => ascii "PM"
  | dynamicSelf => ascii "D"
  | unowned => ascii "Xo"
  | unmanaged => ascii "Xu"
  | weak => ascii "Xw"

def apply (type : Node) : Modifier → Node
  | metatype => .branch .metatype [type]
  | represented representation => .branch .metatype [representation.tree, type]
  | existentialMetatype => .branch .existentialMetatype [type]
  | dynamicSelf => .branch .dynamicSelf [type]
  | unowned => .branch .unowned [type]
  | unmanaged => .branch .unmanaged [type]
  | weak => .branch .weak [type]

end Modifier

/-- A type to be mangled. -/
inductive TypeExpr where
  | builtin (type : BuiltinType)
  | standard (type : StandardType)
  | param (depth index : Nat)
  | declared (parent : Scope) (kind : DeclKind) (name : Bytes)
  /-- A composition of protocols, each in a module. -/
  | protocols (names : List (Bytes × Bytes))
  | function (kind : FunctionKind) (throwing : Bool) (arguments result : TypeExpr)
  | tuple (variadic : Bool) (elements : List (Option Bytes × TypeExpr))
  | modified (modifier : Modifier) (type : TypeExpr)
  | inOut (type : TypeExpr)
  | bound (type : StandardType) (arguments : List TypeExpr)
  deriving Inhabited

/-- A generic parameter after the letter of types. -/
def paramIndex : Nat → Nat → Bytes
  | 0, 0 => ascii "x"
  | 0, index' + 1 => index index'
  | depth + 1, index' => ascii "d" ++ index depth ++ index index'

def paramTree (depth index : Nat) : Node :=
  .named .dependentGenericParamType (archetypeName index depth)
    [.numbered .index depth, .numbered .index index]

/-- A generic parameter as a type: the first one has a letter of its own. -/
def paramCode (depth index : Nat) : Bytes :=
  if depth = 0 ∧ index = 0 then ascii "x" else ascii "q" ++ paramIndex depth index

def writeProtocols : List (Bytes × Bytes) → Writer
  | [] => emit []
  | (module, name) :: rest =>
    Scope.writeProtocol (.root module) name ++ writeProtocols rest

def protocolTree (module name : Bytes) : Node :=
  .branch .type [(Scope.member (.root module) .protocolDecl name).tree]

def labelCode : Option Bytes → Bytes
  | some label => identifier label
  | none => []

def labelTrees : Option Bytes → List Node
  | some label => [nameNode .tupleElementName label]
  | none => []

namespace TypeExpr

mutual

def write : TypeExpr → Writer
  | builtin type => emit (ascii "B" ++ type.code)
  | standard type => emit (ascii "S" ++ type.letter)
  | param depth index => emit (paramCode depth index)
  | declared parent kind name => (Scope.member parent kind name).write
  | protocols names => emit (ascii "P") ++ writeProtocols names ++ emit (ascii "_")
  | function kind throwing arguments result =>
    emit (kind.letter ++ if throwing then ascii "z" else []) ++ write arguments ++ write result
  | tuple variadic elements =>
    emit (ascii (if variadic then "t" else "T")) ++ writeElements elements ++ emit (ascii "_")
  | modified modifier type => emit modifier.code ++ write type
  | inOut type => emit (ascii "R") ++ write type
  | bound type arguments =>
    emit (ascii "GS" ++ type.letter) ++ writeAll arguments ++ emit (ascii "_")
termination_by structural type => type

def writeElements : List (Option Bytes × TypeExpr) → Writer
  | [] => emit []
  | (label, type) :: rest => emit (labelCode label) ++ write type ++ writeElements rest
termination_by structural elements => elements

def writeAll : List TypeExpr → Writer
  | [] => emit []
  | type :: rest => write type ++ writeAll rest
termination_by structural types => types

end

/-- Marks the last element of a variadic tuple. -/
def variadicMarks (variadic : Bool) (after : List (Option Bytes × TypeExpr)) : List Node :=
  if variadic && after.isEmpty then [.branch .variadicMarker []] else []

mutual

/-- The tree of a type without its wrapping node. -/
def bareTree : TypeExpr → Node
  | builtin type => type.tree
  | standard type => type.tree
  | param depth index => paramTree depth index
  | declared parent kind name => (Scope.member parent kind name).tree
  | protocols names =>
    .branch .protocolList
      [.branch .typeList (names.map fun (module, name) => protocolTree module name)]
  | function kind throwing arguments result =>
    .branch kind.kind ((if throwing then [.branch .throwsMark []] else []) ++
      [.branch .argumentTuple [.branch .type [bareTree arguments]],
        .branch .returnType [.branch .type [bareTree result]]])
  | tuple variadic elements => .branch .tuple (elementTrees variadic elements)
  | modified modifier type => modifier.apply (.branch .type [bareTree type])
  | inOut type => .branch .inOut [bareTree type]
  | bound type arguments =>
    .branch type.boundKind [.branch .type [type.tree], .branch .typeList (trees arguments)]
termination_by structural type => type

def elementTrees (variadic : Bool) : List (Option Bytes × TypeExpr) → List Node
  | [] => []
  | (label, type) :: rest =>
    .branch .tupleElement
        (labelTrees label ++ .branch .type [bareTree type] :: variadicMarks variadic rest)
      :: elementTrees variadic rest
termination_by structural elements => elements

def trees : List TypeExpr → List Node
  | [] => []
  | type :: rest => .branch .type [bareTree type] :: trees rest
termination_by structural types => types

end

def tree (type : TypeExpr) : Node :=
  .branch .type [type.bareTree]

/-- The mangling of a type alone. -/
def mangle (type : TypeExpr) : Bytes :=
  (type.write []).1

end TypeExpr

end SwiftMangling.Mangle
