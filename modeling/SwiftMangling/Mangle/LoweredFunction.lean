import SwiftMangling.Mangle.Signature

/-!
Lowered function types to be mangled. Each convention has a letter, which means something else or
nothing in another place. So a lowered function type is spelled with any letters, and some spellings
stand for one.
-/

namespace SwiftMangling.Mangle

open Writer

inductive CalleeConvention where
  | thin
  | unowned
  | guaranteed
  | owned
  deriving DecidableEq, Repr, Inhabited

namespace CalleeConvention

def letter : CalleeConvention → Char
  | thin => 't'
  | unowned => 'd'
  | guaranteed => 'g'
  | owned => 'o'

def ofLetter? : Char → Option CalleeConvention
  | 't' => some thin
  | 'd' => some unowned
  | 'g' => some guaranteed
  | 'o' => some owned
  | _ => none

def name : CalleeConvention → String
  | thin => "@convention(thin)"
  | unowned => "@callee_unowned"
  | guaranteed => "@callee_guaranteed"
  | owned => "@callee_owned"

end CalleeConvention

inductive FunctionAttribute where
  | block
  | c
  | method
  | objCMethod
  | witnessMethod
  deriving DecidableEq, Repr, Inhabited

namespace FunctionAttribute

def letter : FunctionAttribute → Char
  | block => 'b'
  | c => 'c'
  | method => 'm'
  | objCMethod => 'O'
  | witnessMethod => 'w'

def ofLetter? : Char → Option FunctionAttribute
  | 'b' => some block
  | 'c' => some c
  | 'm' => some method
  | 'O' => some objCMethod
  | 'w' => some witnessMethod
  | _ => none

def name : FunctionAttribute → String
  | block => "@convention(block)"
  | c => "@convention(c)"
  | method => "@convention(method)"
  | objCMethod => "@convention(objc_method)"
  | witnessMethod => "@convention(witness_method)"

end FunctionAttribute

inductive ParameterConvention where
  | unowned
  | guaranteed
  | deallocating
  | indirect
  | inOut
  | owned
  deriving DecidableEq, Repr, Inhabited

namespace ParameterConvention

def letter : ParameterConvention → Char
  | unowned => 'd'
  | guaranteed => 'g'
  | deallocating => 'e'
  | indirect => 'i'
  | inOut => 'l'
  | owned => 'o'

def ofLetter? : Char → Option ParameterConvention
  | 'd' => some unowned
  | 'g' => some guaranteed
  | 'e' => some deallocating
  | 'i' => some indirect
  | 'l' => some inOut
  | 'o' => some owned
  | _ => none

def name : ParameterConvention → String
  | unowned => "@unowned"
  | guaranteed => "@guaranteed"
  | deallocating => "@deallocating"
  | indirect => "@in"
  | inOut => "@inout"
  | owned => "@owned"

end ParameterConvention

inductive ResultConvention where
  | autoreleased
  | unowned
  | innerPointer
  | indirect
  | owned
  deriving DecidableEq, Repr, Inhabited

namespace ResultConvention

def letter : ResultConvention → Char
  | autoreleased => 'a'
  | unowned => 'd'
  | innerPointer => 'D'
  | indirect => 'i'
  | owned => 'o'

def ofLetter? : Char → Option ResultConvention
  | 'a' => some autoreleased
  | 'd' => some unowned
  | 'D' => some innerPointer
  | 'i' => some indirect
  | 'o' => some owned
  | _ => none

def name : ResultConvention → String
  | autoreleased => "@autoreleased"
  | unowned => "@unowned"
  | innerPointer => "@unowned_inner_pointer"
  | indirect => "@out"
  | owned => "@owned"

end ResultConvention

structure LoweredParameter where
  convention : ParameterConvention
  type : TypeExpr
  deriving Inhabited

structure LoweredResult where
  isError : Bool
  convention : ResultConvention
  type : TypeExpr
  deriving Inhabited

/-- A function type as the code generator sees it. -/
structure LoweredFunction where
  callee : CalleeConvention
  attribute? : Option FunctionAttribute
  /-- The signature, if there is one, and whether it is pseudogeneric. -/
  signature? : Option (Bool × Signature)
  parameters : List LoweredParameter
  results : List LoweredResult
  deriving Inhabited

/-- A parameter or a result as it is spelled. -/
structure LoweredPart where
  /-- It has the mark of an error result. -/
  isMarked : Bool
  letter : UInt8
  type : TypeExpr
  deriving Inhabited

/-- A lowered function type as it is spelled. -/
structure LoweredSpelling where
  callee : UInt8
  attribute? : Option UInt8
  signature? : Option (Bool × Signature)
  parameters : List LoweredPart
  results : List LoweredPart
  deriving Inhabited

namespace LoweredPart

def write (part : LoweredPart) : Writer :=
  emit ((if part.isMarked then ascii "z" else []) ++ [part.letter]) ++ part.type.write

def writeAll : List LoweredPart → Writer
  | [] => emit []
  | part :: rest => part.write ++ writeAll rest

/-- A list of parameters or of results ends in an underscore. -/
def writeList (parts : List LoweredPart) : Writer :=
  writeAll parts ++ emit (ascii "_")

/-- The parameter that is spelled, which has no mark. -/
def parameter? (part : LoweredPart) : Option LoweredParameter :=
  if part.isMarked then none
  else (ParameterConvention.ofLetter? (Bytes.char part.letter)).map (⟨·, part.type⟩)

/-- The result that is spelled. -/
def result? (part : LoweredPart) : Option LoweredResult :=
  (ResultConvention.ofLetter? (Bytes.char part.letter)).map (⟨part.isMarked, ·, part.type⟩)

end LoweredPart

namespace LoweredSpelling

def attributeCode : Option UInt8 → Bytes
  | none => []
  | some letter => ascii "C" ++ [letter]

def writeSignature : Option (Bool × Signature) → Writer
  | none => emit []
  | some (pseudogeneric, signature) =>
    emit (ascii (if pseudogeneric then "g" else "G")) ++ signature.write

def write (spelling : LoweredSpelling) : Writer :=
  emit (ascii "XF") ++ emit [spelling.callee] ++ emit (attributeCode spelling.attribute?)
    ++ writeSignature spelling.signature? ++ emit (ascii "_")
    ++ LoweredPart.writeList spelling.parameters ++ LoweredPart.writeList spelling.results

/-- The attribute that is spelled, if one is. -/
def attributes? : Option UInt8 → Option (Option FunctionAttribute)
  | none => some none
  | some letter => (FunctionAttribute.ofLetter? (Bytes.char letter)).map some

/-- The lowered function type that is spelled. There is none if a letter means nothing in its place, or
if a parameter is marked. -/
def function? (spelling : LoweredSpelling) : Option LoweredFunction := do
  let callee ← CalleeConvention.ofLetter? (Bytes.char spelling.callee)
  let attribute? ← attributes? spelling.attribute?
  let parameters ← spelling.parameters.mapM LoweredPart.parameter?
  let results ← spelling.results.mapM LoweredPart.result?
  pure ⟨callee, attribute?, spelling.signature?, parameters, results⟩

/-- The mangling of a spelling alone. -/
def mangle (spelling : LoweredSpelling) : Bytes :=
  (spelling.write []).1

end LoweredSpelling

def LoweredParameter.spelling (parameter : LoweredParameter) : LoweredPart where
  isMarked := false
  letter := parameter.convention.letter.toUInt8
  type := parameter.type

def LoweredResult.spelling (result : LoweredResult) : LoweredPart where
  isMarked := result.isError
  letter := result.convention.letter.toUInt8
  type := result.type

namespace LoweredFunction

def spelling (f : LoweredFunction) : LoweredSpelling where
  callee := f.callee.letter.toUInt8
  attribute? := f.attribute?.map (·.letter.toUInt8)
  signature? := f.signature?
  parameters := f.parameters.map LoweredParameter.spelling
  results := f.results.map LoweredResult.spelling

def conventionTree (name : String) : Node :=
  .named .implConvention name

def attributeTrees : Option FunctionAttribute → List Node
  | none => []
  | some way => [.named .implFunctionAttribute way.name]

def signatureTrees : Option (Bool × Signature) → List Node
  | none => []
  | some (pseudogeneric, signature) =>
    [signature.tree
      (if pseudogeneric then .dependentPseudogenericSignature else .dependentGenericSignature)]

def parameterTree (parameter : LoweredParameter) : Node :=
  .branch .implParameter [conventionTree parameter.convention.name, parameter.type.tree]

def resultTree (result : LoweredResult) : Node :=
  .branch (if result.isError then .implErrorResult else .implResult)
    [conventionTree result.convention.name, result.type.tree]

/-- The tree of a lowered function type without its wrapping node. -/
def bareTree (f : LoweredFunction) : Node :=
  .branch .implFunctionType
    (conventionTree f.callee.name :: attributeTrees f.attribute? ++ signatureTrees f.signature?
      ++ f.parameters.map parameterTree ++ f.results.map resultTree)

def tree (f : LoweredFunction) : Node :=
  .branch .type [f.bareTree]

/-- How many of the results are error results. -/
def errors (f : LoweredFunction) : Nat :=
  f.results.countP (·.isError)

end LoweredFunction

end SwiftMangling.Mangle
