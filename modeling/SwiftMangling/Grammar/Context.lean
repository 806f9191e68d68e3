import SwiftMangling.Grammar.Nominal

/-!
Contexts of declarations, lists of protocols and conformances.
-/

namespace SwiftMangling.Grammar

variable (call : Calls)

/-- The letters that an entity begins with in a context. -/
def startsEntity (c : Char) : Bool :=
  c ∈ ['F', 'I', 'v', 'P', 's', 'Z'] || (nominalKind? c).isSome

/-- An extension by a module of what it extends. -/
def extensionContext : Parser Node := do
  let definer ← moduleName
  let extended ← call .context
  branch .extensionContext [definer, extended]

/-- An extension with a generic signature, which is mangled before what it extends. -/
def constrainedExtension : Parser Node := do
  let definer ← moduleName
  let signature ← call (.signature false)
  let extended ← call .context
  branch .extensionContext [definer, extended, signature]

def contextBody : Parser Node := do
  if ← atEnd then refuse
  else if ← accept "E" then extensionContext call
  else if ← accept "e" then constrainedExtension call
  else if ← accept "S" then substitution
  else if ← accept "s" then pure stdlibModule
  else if ← accept "G" then boundGeneric call
  else if startsEntity (← peek) then call .entity
  else moduleName

def protocolList : Parser Node := do
  let protocols ← gather (accept "_") fun _ => protocolType call
  let types ← branch .typeList (protocols.map some)
  branch .protocolList [types]

/-- A type, a protocol that it conforms to, and where it does. -/
def conformance : Parser Node := do
  let conforming ← call .type
  let protocol ← protocolType call
  let context ← call .context
  branch .protocolConformance [conforming, protocol, context]

end SwiftMangling.Grammar
