import SwiftMangling.Grammar.Nominal

/-!
Entities: functions, variables, initializers and subscripts with their accessors and closures, and
the nominal types. An accessor hangs off a variable, or off a subscript when its name is the
reserved one.
-/

namespace SwiftMangling.Grammar

variable (call : Calls)

def entityKind? : Char → Option Kind
  | 'F' => some .function
  | 'v' => some .variableDecl
  | 'I' => some .initializer
  | 'i' => some .subscript
  | _ => none

def mutableAddressor? : Char → Option Kind
  | 'O' => some .owningMutableAddressor
  | 'o' => some .nativeOwningMutableAddressor
  | 'p' => some .nativePinningMutableAddressor
  | 'u' => some .unsafeMutableAddressor
  | _ => none

def addressor? : Char → Option Kind
  | 'O' => some .owningAddressor
  | 'o' => some .nativeOwningAddressor
  | 'p' => some .nativePinningAddressor
  | 'u' => some .unsafeAddressor
  | _ => none

/-- What follows the context of an entity, by its first letter. -/
inductive EntityName where
  /-- A member that has no type. -/
  | untyped (kind : Kind)
  /-- A member that has a type and no name. -/
  | typed (kind : Kind)
  /-- An accessor whose kind is given by a second letter. -/
  | addressor (kind? : Char → Option Kind)
  | accessor (kind : Kind)
  | closure (kind : Kind)

def entityName? : Char → Option EntityName
  | 'D' => some (.untyped .deallocator)
  | 'd' => some (.untyped .destructor)
  | 'e' => some (.untyped .ivarInitializer)
  | 'E' => some (.untyped .ivarDestroyer)
  | 'C' => some (.typed .allocator)
  | 'c' => some (.typed .constructor)
  | 'a' => some (.addressor mutableAddressor?)
  | 'l' => some (.addressor addressor?)
  | 'g' => some (.accessor .getter)
  | 'G' => some (.accessor .globalGetter)
  | 's' => some (.accessor .setter)
  | 'm' => some (.accessor .materializeForSet)
  | 'w' => some (.accessor .willSet)
  | 'W' => some (.accessor .didSet)
  | 'r' => some (.accessor .readAccessor)
  | 'M' => some (.accessor .modifyAccessor)
  | 'U' => some (.closure .explicitClosure)
  | 'u' => some (.closure .implicitClosure)
  | _ => none

def isSubscriptName (node : Node) : Bool :=
  node.text? = some "subscript"

/-- Whether a name is that of a subscript, and what is left of it then: nothing but the file
discriminator. Any other name is left as it is. -/
def accessedName (name : Node) : Parser (Bool × Option Node) := do
  if name.kind = .identifier then
    pure (if isSubscriptName name then (true, none) else (false, some name))
  else if name.kind = .privateDeclName ∧ 1 < name.children.length then
    if isSubscriptName (← childAt name 1) then
      let discriminator ← childAt name 0
      let file ← branch .privateDeclName [discriminator]
      pure (true, some file)
    else pure (false, some name)
  else pure (false, some name)

/-- What an accessor hangs off. A variable has its name before its type; what is left of a
subscript's name stands after the type. -/
def accessedNode (context name : Node) : Parser Node := do
  let (isSubscript, rest) ← accessedName name
  if isSubscript then
    let type ← call .type
    branch .subscript (context :: type :: if rest.isSome then [rest] else [])
  else
    let holder ← branch .variableDecl [context, rest]
    let type ← call .type
    addChild holder type

def accessor (kind : Kind) (context : Node) : Parser Node := do
  let name ← declName
  let accessed ← accessedNode call context name
  branch kind [accessed]

/-- The initializer of a default argument or of a variable. -/
def initializerName (context : Node) : Parser Node := do
  if ← accept "A" then
    let name ← indexNode
    branch .defaultArgumentInitializer [context, name]
  else if ← accept "i" then branch .initializer [context]
  else refuse

/-- A function, variable or subscript under its own name. -/
def namedEntity (kind : Kind) (context : Node) : Parser Node := do
  let name ← declName
  let type ← call .type
  branch kind [context, name, type]

/-- The part of an entity after its context. -/
def entityInContext (kind : Kind) (context : Node) : Parser Node := do
  match entityName? (← peek) with
  | some (.untyped kind) =>
    let _ ← next
    branch kind [context]
  | some (.typed kind) =>
    let _ ← next
    let type ← call .type
    branch kind [context, type]
  | some (.addressor kind?) =>
    let _ ← next
    let letter ← next
    let kind ← orRefuse (kind? letter)
    accessor call kind context
  | some (.accessor kind) =>
    let _ ← next
    accessor call kind context
  | some (.closure kind) =>
    let _ ← next
    let name ← indexNode
    let type ← call .type
    branch kind [context, name, type]
  | none => if kind = .initializer then initializerName context else namedEntity call kind context

/-- An entity; the mark for a static one has no effect before a nominal type. -/
def entityBody : Parser Node := do
  let isStatic ← accept "Z"
  match entityKind? (← peek) with
  | none => nominal call
  | some kind =>
    let _ ← next
    let context ← call .context
    let entity ← entityInContext call kind context
    if isStatic then branch .staticMember [entity] else pure entity

end SwiftMangling.Grammar
