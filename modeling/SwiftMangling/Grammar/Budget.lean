import SwiftMangling.Grammar.Entity
import SwiftMangling.Grammar.Global
import SwiftMangling.Grammar.ImplFunction
import SwiftMangling.Grammar.Type

/-!
The grammar under a budget. A production is used at the price of one unit, and the productions
inside it share what is left.
-/

namespace SwiftMangling.Grammar

/-- A production in terms of the productions inside it. -/
def body (call : Calls) : Production → Parser Node
  | .type => typeNode call
  | .bareType => bareType call
  | .context => contextBody call
  | .entity => entityBody call
  | .global => globalBody call
  | .archetype => archetypeBody call
  | .boundArguments nominal => boundArgumentsBody call nominal
  | .signature pseudogeneric => signatureBody call pseudogeneric
  | .implFunction => implFunctionBody call

/-- Reads a production within a budget. -/
def parse : Nat → Calls
  | 0 => fun _ => stop .exhausted
  | budget + 1 => body (parse budget)

end SwiftMangling.Grammar
