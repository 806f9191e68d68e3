import SwiftMangling.Grammar.Production

/-!
Lowered function types: a callee convention, an attribute, a signature, and lists of parameters and
results. A convention letter means different things in the three places, or nothing.
-/

namespace SwiftMangling.Grammar

variable (call : Calls)

/-- What a convention letter says for the callee, for a parameter and for a result. -/
structure Convention where
  callee : Option String
  parameter : Option String
  result : Option String

def convention? : Char → Option Convention
  | 'a' => some ⟨none, none, some "@autoreleased"⟩
  | 'd' => some ⟨some "@callee_unowned", some "@unowned", some "@unowned"⟩
  | 'D' => some ⟨none, none, some "@unowned_inner_pointer"⟩
  | 'g' => some ⟨some "@callee_guaranteed", some "@guaranteed", none⟩
  | 'e' => some ⟨none, some "@deallocating", none⟩
  | 'i' => some ⟨none, some "@in", some "@out"⟩
  | 'l' => some ⟨none, some "@inout", none⟩
  | 'o' => some ⟨some "@callee_owned", some "@owned", some "@owned"⟩
  | _ => none

/-- A convention letter, read for its place. -/
def convention (place : Convention → Option String) : Parser String := do
  let convention ← orRefuse (convention? (← peek))
  let _ ← next
  orRefuse (place convention)

def conventionNode (name : String) : Node :=
  .named .implConvention name

def calleeConvention : Parser String := do
  if ← accept "t" then pure "@convention(thin)" else convention Convention.callee

def functionAttribute? : Char → Option String
  | 'b' => some "@convention(block)"
  | 'c' => some "@convention(c)"
  | 'm' => some "@convention(method)"
  | 'O' => some "@convention(objc_method)"
  | 'w' => some "@convention(witness_method)"
  | _ => none

def functionAttributes : Parser (List Node) := do
  if ← accept "C" then
    let name ← orRefuse (functionAttribute? (← next))
    pure [.named .implFunctionAttribute name]
  else pure []

def functionSignature : Parser (List Node) := do
  if ← accept "G" then (do pure [← call (.signature false)])
  else if ← accept "g" then (do pure [← call (.signature true)])
  else pure []

/-- A convention and a type. -/
def conventionType (kind : Kind) (place : Convention → Option String) : Parser Node := do
  let name ← convention place
  let type ← call .type
  branch kind [conventionNode name, type]

/-- A parameter; the mark of an error result is refused. -/
def parameter : Parser Node := do
  if ← accept "z" then refuse else conventionType call .implParameter Convention.parameter

/-- A result after others; there is at most one error result. -/
def result (earlier : List Node) : Parser Node := do
  if ← accept "z" then
    let node ← conventionType call .implErrorResult Convention.result
    if earlier.any fun other => other.kind = .implErrorResult then refuse else pure node
  else conventionType call .implResult Convention.result

def implFunctionBody : Parser Node := do
  let callee ← calleeConvention
  let attributes ← functionAttributes
  let signature ← functionSignature call
  demand "_"
  let parameters ← gather (accept "_") fun _ => parameter call
  let results ← gather (accept "_") (result call)
  branch .implFunctionType
    ((conventionNode callee :: attributes ++ signature ++ parameters ++ results).map some)

end SwiftMangling.Grammar
