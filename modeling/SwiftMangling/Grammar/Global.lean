import SwiftMangling.Grammar.Context
import SwiftMangling.Grammar.Specialization

/-!
Global symbols: metadata, witnesses, thunks and entities, and around them the specializations,
attributes and trailing bytes of a whole symbol.
-/

namespace SwiftMangling.Grammar

variable (call : Calls)

/-- A node whose children are read in order. -/
def inOrder (kind : Kind) (parts : List (Parser Node)) : Parser Node := do
  let children ← parts.mapM id
  branch kind (children.map some)

/-- Metadata of a type, by its letter. -/
def metadataKind? : Char → Option Kind
  | 'P' => some .genericTypeMetadataPattern
  | 'a' => some .typeMetadataAccessFunction
  | 'L' => some .typeMetadataLazyCache
  | 'm' => some .metaclass
  | 'n' => some .nominalTypeDescriptor
  | 'f' => some .fullTypeMetadata
  | _ => none

/-- Metadata after its `M`. -/
def metadata : Parser Node := do
  match metadataKind? (← peek) with
  | some kind =>
    let _ ← next
    wrapped call kind .type
  | none =>
    if ← accept "p" then inOrder .protocolDescriptor [protocolType call]
    else wrapped call .typeMetadata .type

/-- The codes of the value witnesses in the order of their numbers. -/
def valueWitnessCodes : List Text :=
  ["al", "ca", "ta", "de", "xx", "XX", "Xx", "CP", "Cp", "cp", "TK", "Tk", "tk", "pr", "xs", "xg",
    "Cc", "Tt", "tT", "ug", "up", "ui"]

def valueWitness : Parser Node := do
  let code ← advance 2
  let number ← orRefuse (valueWitnessCodes.idxOf? (Text.ofBytes code))
  let type ← call .type
  numbered .valueWitness number [type]

/-- Whether a field offset is direct, which is 0, or indirect, which is 1. -/
def directness : Parser Node := do
  if ← accept "d" then numbered .directness 0
  else if ← accept "i" then numbered .directness 1
  else refuse

/-- A witness by its letter, with what it is made of. -/
def witness? : Char → Option (Kind × List (Parser Node))
  | 'V' => some (.valueWitnessTable, [call .type])
  | 'P' => some (.protocolWitnessTable, [conformance call])
  | 'G' => some (.genericProtocolWitnessTable, [conformance call])
  | 'I' => some (.genericProtocolWitnessTableInstantiationFunction, [conformance call])
  | 'l' => some (.lazyProtocolWitnessTableAccessor, [call .type, conformance call])
  | 'L' => some (.lazyProtocolWitnessTableCacheVariable, [call .type, conformance call])
  | 'a' => some (.protocolWitnessTableAccessor, [conformance call])
  | 't' => some (.associatedTypeMetadataAccessor, [conformance call, declName])
  | 'T' => some (.associatedTypeWitnessTableAccessor,
      [conformance call, declName, protocolType call])
  | _ => none

/-- A witness after its `W`. -/
def witness : Parser Node := do
  if ← accept "v" then inOrder .fieldOffset [directness, call .entity]
  else
    match witness? call (← peek) with
    | some (kind, parts) =>
      let _ ← next
      inOrder kind parts
    | none => refuse

/-- A thunk between two types, under a signature if there is one. -/
def reabstraction (kind : Kind) : Parser Node := do
  let signature ← afterMark "G" (call (.signature false))
  let source ← call .type
  let target ← call .type
  branch kind ((signature.toList ++ [source, target]).map some)

/-- A thunk after its `T`. -/
def thunk : Parser Node := do
  if ← accept "R" then reabstraction call .reabstractionThunkHelper
  else if ← accept "r" then reabstraction call .reabstractionThunk
  else if ← accept "W" then inOrder .protocolWitness [conformance call, call .entity]
  else refuse

/-- A forwarder of a partial application, with the symbol that it forwards to if that is given. -/
def partialApply : Parser Node := do
  let kind :=
    if ← accept "o" then Kind.partialApplyObjCForwarder else Kind.partialApplyForwarder
  if ← accept "__T" then wrapped call kind .global else branch kind []

def globalBody : Parser Node := do
  if ← atEnd then refuse
  else if ← accept "M" then metadata call
  else if ← accept "PA" then partialApply call
  else if ← accept "t" then wrapped call .typeMangling .type
  else if ← accept "w" then valueWitness call
  else if ← accept "W" then witness call
  else if ← accept "T" then thunk call
  else call .entity

/-- The specializations of a symbol; each has recorded nodes of its own. -/
def specializations : Parser (List Node) :=
  iterate (fun earlier => do
    let node ← specialization call
    forget
    if ← accept "_TTS" then pure (.again (node :: earlier))
    else pure (.done (node :: earlier).reverse)) []

/-- An attribute of a symbol that takes no argument. -/
def symbolAttributes : Parser (List Node) := do
  if ← accept "To" then pure [.branch .objCAttribute []]
  else if ← accept "TO" then pure [.branch .nonObjCAttribute []]
  else if ← accept "TD" then pure [.branch .dynamicAttribute []]
  else if ← accept "Td" then pure [.branch .directMethodReferenceAttribute []]
  else if ← accept "TV" then pure [.branch .vtableAttribute []]
  else pure []

/-- What stands before the global of a symbol. -/
def symbolPrelude : Parser (List Node) := do
  if ← accept "TS" then
    let nodes ← specializations call
    demand "_T"
    pure nodes
  else symbolAttributes

/-- The bytes after the global of a symbol, if there are any. -/
def trailing : Parser (List Node) := do
  if ← atEnd then pure []
  else
    let bytes ← takeRest
    let text ← textOfChars (Text.ofBytes bytes)
    let suffix ← named .suffix text
    pure [suffix]

/-- A whole symbol. -/
def symbol : Parser Node := do
  demand "_T"
  let prelude ← symbolPrelude call
  let body ← call .global
  let suffix ← trailing
  branch .global ((prelude ++ body :: suffix).map some)

end SwiftMangling.Grammar
