import SwiftMangling.Grammar.Context
import SwiftMangling.Grammar.Natural

/-!
Specialization attributes. A generic specialization lists types with their conformances; a function
signature specialization says for each parameter what became of it.
-/

namespace SwiftMangling.Grammar

variable (call : Calls)

/-- What became of a parameter, by number; the last four are flags that may stand together. -/
inductive ParamChange where
  | constantFunction
  | constantGlobal
  | constantInteger
  | constantFloat
  | constantString
  | closure
  | boxToValue
  | boxToStack
  | dead
  | ownedToGuaranteed
  | exploded
  | guaranteedToOwned
  deriving DecidableEq, Repr

namespace ParamChange

def number : ParamChange → Nat
  | constantFunction => 0
  | constantGlobal => 1
  | constantInteger => 2
  | constantFloat => 3
  | constantString => 4
  | closure => 5
  | boxToValue => 6
  | boxToStack => 7
  | dead => 64
  | ownedToGuaranteed => 128
  | exploded => 256
  | guaranteedToOwned => 512

end ParamChange

def changeNode (number : Nat) : Node :=
  .numbered .functionSignatureSpecializationParamKind number

def change (what : ParamChange) : Node :=
  changeNode what.number

/-- A payload with what there is of a text. -/
def payloadNode (content : Option Text) : Parser Node :=
  build .functionSignatureSpecializationParamPayload content none []

/-- A constant that is named. -/
def constantName (what : ParamChange) : Parser (List Node) := do
  let name ← identifier
  demand "_"
  let payload ← payloadNode name.text?
  pure [change what, payload]

/-- A constant that is written out up to an underscore. -/
def constantLiteral (what : ParamChange) : Parser (List Node) := do
  let literal ← readUntil "_"
  demand "_"
  let text ← textOfChars (Text.ofBytes literal)
  let payload ← payloadNode text
  pure [change what, payload]

def stringEncoding : Parser Text := do
  if ← accept "0" then pure "u8"
  else if ← accept "1" then pure "u16"
  else refuse

/-- A constant string: its encoding and its content, which is spelled as an identifier. -/
def constantString : Parser (List Node) := do
  demand "e"
  let encoding ← stringEncoding
  demand "v"
  let content ← identifier
  demand "_"
  let encoding ← payloadNode encoding
  let content ← payloadNode content.text?
  pure [change .constantString, encoding, content]

def constantChange : Parser (List Node) := do
  if ← accept "fr" then constantName .constantFunction
  else if ← accept "g" then constantName .constantGlobal
  else if ← accept "i" then constantLiteral .constantInteger
  else if ← accept "fl" then constantLiteral .constantFloat
  else if ← accept "s" then constantString
  else refuse

/-- A closure by name; its types are kept as far as they are found. -/
def closureChange : Parser (List Node) := do
  let name ← identifier
  let payload ← payloadNode name.text?
  let types ← gatherFound (do
    let c ← peek
    pure (c = '_')) (call .type)
  demand "_"
  pure (change .closure :: payload :: types)

/-- The number of a flag if its letter comes next. -/
def flag (letter : Text) (what : ParamChange) : Parser Nat := do
  if ← accept letter then pure what.number else pure 0

/-- A non-empty set of flags in a fixed order. -/
def flagChange : Parser (List Node) := do
  let dead ← flag "d" .dead
  let guaranteed ← flag "g" .ownedToGuaranteed
  let owned ← flag "o" .guaranteedToOwned
  let exploded ← flag "s" .exploded
  demand "_"
  let number := dead + guaranteed + owned + exploded
  if number = 0 then refuse else pure [changeNode number]

/-- What became of one parameter; nothing is said of an unchanged one. -/
def paramChange : Parser (List Node) := do
  if ← accept "n_" then pure []
  else if ← accept "cp" then constantChange
  else if ← accept "cl" then closureChange call
  else if ← accept "i_" then pure [change .boxToValue]
  else if ← accept "k_" then pure [change .boxToStack]
  else flagChange

/-- The parameters of a function signature specialization, numbered from zero. -/
def signatureParams : Parser (List Node) :=
  gather (accept "_") fun earlier => do
    let changes ← paramChange call
    numbered .functionSignatureSpecializationParam earlier.length (changes.map some)

/-- A type with its conformances. -/
def genericParamNode : Parser Node := do
  let type ← call .type
  let conformances ← gather (accept "_") fun _ => conformance call
  branch .genericSpecializationParam (type :: conformances.map some)

def genericParams : Parser (List Node) :=
  gather (accept "_") fun _ => genericParamNode call

/-- The single digit of the pass that made a specialization. -/
def passNumber : Parser Node := do
  let c ← peek
  if c.isDigit then
    let _ ← next
    numbered .specializationPassID (c.toNat - '0'.toNat : Nat)
  else refuse

def specializationOf (kind : Kind) (params : Parser (List Node)) : Parser Node := do
  let serialized ← accept "q"
  let pass ← passNumber
  let params ← params
  let mark : List Node := if serialized then [.branch .isSerialized []] else []
  branch kind ((mark ++ pass :: params).map some)

def specialization : Parser Node := do
  if ← accept "g" then specializationOf .genericSpecialization (genericParams call)
  else if ← accept "r" then
    specializationOf .genericSpecializationNotReAbstracted (genericParams call)
  else if ← accept "f" then specializationOf .functionSignatureSpecialization (signatureParams call)
  else refuse

end SwiftMangling.Grammar
