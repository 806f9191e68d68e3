import SwiftMangling.Grammar.Nominal

/-!
Generic parameters, their associated types, and generic signatures.
-/

namespace SwiftMangling.Grammar

variable (call : Calls)

/-- A generic parameter at a depth. -/
def genericParam (depth index : Nat) : Node :=
  .named .dependentGenericParamType (archetypeName index depth)
    [.numbered .index depth, .numbered .index index]

/-- A generic parameter at a depth that can be written in its name. -/
def writtenParam (depth index : Nat) : Parser Node :=
  if Decimal.isWritable depth then pure (genericParam depth index) else stop .overlong

/-- A generic parameter without its introducing letter. -/
def genericParamIndex : Parser Node := do
  if ← accept "d" then
    let depth ← index
    let index ← index
    writtenParam (depth + 1) index
  else if ← accept "x" then pure (genericParam 0 0)
  else
    let n ← index
    pure (genericParam 0 (n + 1))

/-- The name of an associated type, recorded when it is spelled out. -/
def associatedTypeRef : Parser Node := do
  if ← accept "S" then
    let node ← substitution
    if node.kind = .dependentAssociatedTypeRef then pure node else refuse
  else
    let protocol ← afterMark "P" (protocolType call)
    let name ← identifier (some .dependentAssociatedTypeRef)
    let node ← (if protocol.isSome then addChild name protocol else pure name)
    record node
    pure node

/-- A member type of a base. -/
def memberType (base : Node) : Parser Node := do
  let name ← associatedTypeRef call
  branch .dependentMemberType [base, name]

/-- A member type of a generic parameter. -/
def simpleMemberType : Parser Node := do
  let param ← genericParamIndex
  let base ← branch .type [param]
  memberType call base

/-- A chain of member types of a generic parameter. -/
def compoundMemberType : Parser Node := do
  let param ← genericParamIndex
  foldUntil (accept "_") (fun base => do
    let base ← branch .type [base]
    memberType call base) param

/-- A generic parameter, or a member type whose base is any type: the base begins with neither a
digit nor `d` nor an underscore. -/
def dependentType : Parser Node := do
  if ← atEnd then refuse
  else
    let c ← peek
    if c ≠ 'd' ∧ c ≠ '_' ∧ ¬c.isDigit then
      let base ← call .type
      memberType call base
    else genericParamIndex

/-- A generic parameter or a member type of one. -/
def paramOrMember : Parser Node := do
  if ← accept "w" then simpleMemberType call
  else if ← accept "W" then compoundMemberType call
  else genericParamIndex

/-- The type that a requirement is about. -/
def constrainedType : Parser Node := do
  let type ← paramOrMember call
  branch .type [type]

/-- How many numbers stand after the letter of a layout constraint: a size, then an alignment. -/
def layoutNumbers? : Char → Option Nat
  | 'U' | 'R' | 'N' | 'T' => some 0
  | 'e' | 'm' => some 1
  | 'E' | 'M' => some 2
  | _ => none

def layoutNumbers : Nat → Parser (List Nat)
  | 0 => pure []
  | 1 => do
    let size ← natural
    pure [size]
  | _ => do
    let size ← natural
    demand "_"
    let alignment ← natural
    pure [size, alignment]

def layoutRequirement (constrained : Node) : Parser Node := do
  let letter ← next
  let count ← orRefuse (layoutNumbers? letter)
  let numbers ← layoutNumbers count
  let letter ← named .identifier [CodePoint.ofChar letter]
  let numbers : List Node := numbers.map fun (n : Nat) => .numbered .number n
  branch .dependentGenericLayoutRequirement ((constrained :: letter :: numbers).map some)

/-- A recorded protocol or class, or a protocol of a recorded module. -/
def substitutedConstraint : Parser Node := do
  let node ← substitution
  if node.kind = .protocolDecl ∨ node.kind = .classDecl then branch .type [node]
  else if node.kind = .moduleName then
    let protocol ← protocolInContext node
    branch .type [protocol]
  else refuse

/-- A base class or a protocol. -/
def conformanceConstraint : Parser Node := do
  if ← atEnd then refuse
  else
    match ← peek with
    | 'C' => call .type
    | 'S' =>
      let _ ← next
      substitutedConstraint
    | _ => protocolType call

def requirement : Parser Node := do
  let constrained ← constrainedType call
  if ← accept "z" then
    let type ← call .type
    branch .dependentGenericSameTypeRequirement [constrained, type]
  else if ← accept "l" then layoutRequirement constrained
  else
    let constraint ← conformanceConstraint call
    branch .dependentGenericConformanceRequirement [constrained, constraint]

def paramCount : Parser Nat := do
  if ← accept "z" then pure 0
  else
    let n ← index
    pure (n + 1)

/-- The parameter counts of a signature by depth; none written means a single parameter. -/
def paramCounts : Parser (List Nat) := do
  let counts ← gather (do
    let c ← peek
    pure (c = 'R' || c = 'r')) fun _ => paramCount
  pure (if counts.isEmpty then [1] else counts)

def signatureKind (pseudogeneric : Bool) : Kind :=
  if pseudogeneric then .dependentPseudogenericSignature else .dependentGenericSignature

/-- The requirements of a signature; a single mark says that there are none. -/
def requirements : Parser (List Node) := do
  if ← accept "r" then pure []
  else
    demand "R"
    gather (accept "r") fun _ => requirement call

def signatureBody (pseudogeneric : Bool) : Parser Node := do
  let counts ← paramCounts
  let requirements ← requirements call
  let counts : List Node := counts.map fun (n : Nat) => .numbered .dependentGenericParamCount n
  branch (signatureKind pseudogeneric) ((counts ++ requirements).map some)

/-- The associated type of an archetype root, which is recorded. -/
def associatedType (root : Node) : Parser Node := do
  let name ← identifier
  let node ← branch .associatedTypeRef [root, name]
  record node
  pure node

def archetypeBody : Parser Node := do
  if ← accept "Q" then
    let root ← call .archetype
    associatedType root
  else if ← accept "S" then
    let root ← substitution
    associatedType root
  else if ← accept "s" then associatedType stdlibModule
  else refuse

end SwiftMangling.Grammar
