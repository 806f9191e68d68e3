import SwiftMangling.Grammar.Context
import SwiftMangling.Grammar.Generic

/-!
Types. The first letter of a type says what it is, and a second letter tells apart the extended
ones.
-/

namespace SwiftMangling.Grammar

variable (call : Calls)

def builtinName? : Char → Option String
  | 'b' => some "BridgeObject"
  | 'B' => some "UnsafeValueBuffer"
  | 'O' => some "UnknownObject"
  | 'o' => some "NativeObject"
  | 'p' => some "RawPointer"
  | 't' => some "SILToken"
  | 'w' => some "Word"
  | _ => none

def builtin (name : Text) : Node :=
  .named .builtinTypeName ("Builtin." ++ name)

def natText (n : Nat) : Text :=
  Decimal.text n

/-- The element type of a builtin vector, which has a number of elements. -/
def builtinVector (elements : Nat) : Parser Node := do
  let name : Text := "Vec" ++ natText elements ++ "x"
  if ← accept "i" then
    let size ← builtinSize
    pure (builtin (name ++ "Int" ++ natText size))
  else if ← accept "f" then
    let size ← builtinSize
    pure (builtin (name ++ "Float" ++ natText size))
  else if ← accept "p" then pure (builtin (name ++ "RawPointer"))
  else refuse

/-- A builtin type after its `B`. -/
def builtinType : Parser Node := do
  if ← atEnd then refuse
  else
    let c ← next
    match builtinName? c with
    | some name => pure (builtin name)
    | none =>
      match c with
      | 'f' =>
        let size ← builtinSize
        pure (builtin ("FPIEEE" ++ natText size))
      | 'i' =>
        let size ← builtinSize
        pure (builtin ("Int" ++ natText size))
      | 'v' =>
        let elements ← natural
        demand "B"
        builtinVector elements
      | _ => refuse

def startsIdentifier (c : Char) : Bool :=
  c.isDigit || c = 'o'

/-- The label of a tuple element, if it has one. -/
def elementLabel : Parser (List Node) := do
  if startsIdentifier (← peek) then
    let label ← identifier (some .tupleElementName)
    pure [label]
  else pure []

def tupleElement : Parser Node := do
  if ← atEnd then refuse
  else
    let label ← elementLabel
    let type ← call .type
    branch .tupleElement ((label ++ [type]).map some)

/-- Marks the last of the elements as variadic. -/
def markVariadic : List Node → List Node
  | [] => []
  | [last] => [last.push (.branch .variadicMarker [])]
  | element :: elements => element :: markVariadic elements

def tuple (variadic : Bool) : Parser Node := do
  let elements ← gather (accept "_") fun _ => tupleElement call
  branch .tuple ((if variadic then markVariadic elements else elements).map some)

def functionType (kind : Kind) : Parser Node := do
  let throwing ← accept "z"
  let arguments ← call .type
  let result ← call .type
  let mark : List Node := if throwing then [.branch .throwsMark []] else []
  let arguments ← branch .argumentTuple [arguments]
  let result ← branch .returnType [result]
  branch kind ((mark ++ [arguments, result]).map some)

def representation? : Char → Option String
  | 't' => some "@thin"
  | 'T' => some "@thick"
  | 'o' => some "@objc_metatype"
  | _ => none

/-- A metatype with its representation. -/
def representedMetatype (kind : Kind) : Parser Node := do
  let name ← orRefuse (representation? (← peek))
  let _ ← next
  let type ← call .type
  let representation ← named .metatypeRepresentation name
  branch kind [representation, type]

def boxField : Parser Node := do
  if ← accept "m" then wrapped call .silBoxMutableField .type
  else if ← accept "i" then wrapped call .silBoxImmutableField .type
  else refuse

/-- A box with a field layout; a generic one has its signature before the fields and the arguments
after them. -/
def boxWithLayout : Parser Node := do
  let signature ← afterMark "G" (call (.signature false))
  let fields ← gather (accept "_") fun _ => boxField call
  let layout ← branch .silBoxLayout (fields.map some)
  if signature.isSome then
    let arguments ← gather (accept "_") fun _ => call .type
    let arguments ← branch .typeList (arguments.map some)
    branch .silBoxTypeWithLayout [layout, signature, arguments]
  else branch .silBoxTypeWithLayout [layout]

/-- The kind of a reference storage type by its letter. -/
def storageKind? : Char → Option Kind
  | 'o' => some .unowned
  | 'u' => some .unmanaged
  | 'w' => some .weak
  | _ => none

/-- A type after its `X`. -/
def extendedType : Parser Node := do
  if ← accept "b" then wrapped call .silBoxType .type
  else if ← accept "B" then boxWithLayout call
  else if ← accept "M" then representedMetatype call .metatype
  else if ← accept "P" then
    if ← accept "M" then representedMetatype call .existentialMetatype
    else protocolList call
  else if ← accept "f" then functionType call .thinFunctionType
  else
    match storageKind? (← peek) with
    | some kind =>
      let _ ← next
      wrapped call kind .type
    | none => if ← accept "F" then call .implFunction else refuse

/-- The type of generic code: its signature and the type under it. -/
def genericType : Parser Node := do
  let signature ← call (.signature false)
  let type ← call .type
  branch .dependentGenericType [signature, type]

/-- A type without its wrapping node. -/
def bareType : Parser Node := do
  if ← atEnd then refuse
  else
    match ← next with
    | 'B' => builtinType
    | 'a' => declaration call .typeAlias
    | 'b' => functionType call .objCBlock
    | 'c' => functionType call .cFunctionPointer
    | 'F' => functionType call .functionType
    | 'f' => functionType call .uncurriedFunctionType
    | 'K' => functionType call .autoClosureType
    | 'D' => wrapped call .dynamicSelf .type
    | 'E' => do
      demand "RR"
      named .errorType []
    | 'G' => boundGeneric call
    | 'M' => wrapped call .metatype .type
    | 'P' => do
      if ← accept "M" then wrapped call .existentialMetatype .type else protocolList call
    | 'Q' => call .archetype
    | 'q' => dependentType call
    | 'x' => pure (genericParam 0 0)
    | 'w' => simpleMemberType call
    | 'W' => compoundMemberType call
    | 'R' => wrapped call .inOut .bareType
    | 'S' => substitution
    | 'T' => tuple call false
    | 't' => tuple call true
    | 'u' => genericType call
    | 'X' => extendedType call
    | 'C' => declaration call .classDecl
    | 'V' => declaration call .structureDecl
    | 'O' => declaration call .enumDecl
    | _ => refuse

def typeNode : Parser Node :=
  wrapped call .type .bareType

end SwiftMangling.Grammar
