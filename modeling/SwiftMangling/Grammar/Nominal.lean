import SwiftMangling.Grammar.Production
import SwiftMangling.Grammar.Substitution

/-!
Nominal types, protocols and bound generic types. A declaration is its context and its name, and it
is recorded once both are read. Generic arguments come in one list for each level of the context,
outermost first, and each level is rebuilt on its parent with the parent's arguments.
-/

namespace SwiftMangling.Grammar

variable (call : Calls)

def declaration (kind : Kind) : Parser Node := do
  let context ← call .context
  let name ← declName
  let node ← branch kind [context, name]
  record node
  pure node

def protocolInContext (context : Node) : Parser Node := do
  let name ← declName
  let node ← branch .protocolDecl [context, name]
  record node
  pure node

/-- A protocol; a substitution is the protocol itself or its module. -/
def protocol : Parser Node := do
  if ← accept "S" then
    let node ← substitution
    if node.kind = .protocolDecl then pure node
    else if node.kind = .moduleName then protocolInContext node
    else refuse
  else if ← accept "s" then protocolInContext stdlibModule
  else declaration call .protocolDecl

def protocolType : Parser Node := do
  let node ← protocol call
  branch .type [node]

/-- The kind of a declared type by its letter. -/
def nominalKind? : Char → Option Kind
  | 'C' => some .classDecl
  | 'V' => some .structureDecl
  | 'O' => some .enumDecl
  | _ => none

def nominal : Parser Node := do
  if ← accept "S" then substitution
  else if ← accept "V" then declaration call .structureDecl
  else if ← accept "O" then declaration call .enumDecl
  else if ← accept "C" then declaration call .classDecl
  else if ← accept "P" then declaration call .protocolDecl
  else refuse

/-- The kind of a nominal type once it has generic arguments. -/
def boundKind? : Kind → Option Kind
  | .classDecl => some .boundGenericClass
  | .structureDecl => some .boundGenericStructure
  | .enumDecl => some .boundGenericEnum
  | _ => none

/-- The kinds of context that take no generic arguments and end the way outwards. -/
def isOutermost (kind : Kind) : Bool :=
  kind = .moduleName || kind = .function || kind = .extensionContext

/-- A nominal type on its parent, where the parent may have got generic arguments. -/
def onBoundParent (node : Node) : Parser Node := do
  if node.children.length = 0 then refuse
  else
    let parent ← childAt node 0
    if isOutermost parent.kind then pure node
    else if node.children.length < 2 then refuse
    else
      let parent ← call (.boundArguments parent)
      let name ← childAt node 1
      branch node.kind [parent, name]

/-- The argument list of one level; an argument may not end the name. -/
def argumentList : Parser (List Node) :=
  gather (accept "_") fun _ => do
    let argument ← call .type
    if ← atEnd then refuse else pure argument

/-- A nominal type with its argument list; an empty list leaves it as it is. -/
def applyArguments (node : Node) (arguments : List Node) : Parser Node := do
  if arguments.isEmpty then pure node
  else
    let kind ← orRefuse (boundKind? node.kind)
    let unbound ← branch .type [node]
    let arguments ← branch .typeList (arguments.map some)
    branch kind [unbound, arguments]

/-- A nominal type with the arguments of all its levels, which are read from here. -/
def boundArgumentsBody (node : Node) : Parser Node := do
  let node ← onBoundParent call node
  let arguments ← argumentList call
  applyArguments node arguments

def boundGeneric : Parser Node := do
  let node ← nominal call
  call (.boundArguments node)

end SwiftMangling.Grammar
