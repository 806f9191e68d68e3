import SwiftMangling.Grammar.Assembly

/-!
The productions that nest. Each use of one costs a unit of the budget, so the productions are named
by data: the parsers between them take the means to call a production as an argument.
-/

namespace SwiftMangling.Grammar

/-- A production whose use costs a unit of the budget. -/
inductive Production where
  | type
  | bareType
  | context
  | entity
  | global
  | archetype
  | boundArguments (nominal : Node)
  | signature (pseudogeneric : Bool)
  | implFunction

/-- The means to use a production inside another one. -/
abbrev Calls := Production → Parser Node

/-- A node with one child, read by a production. -/
def wrapped (call : Calls) (kind : Kind) (production : Production) : Parser Node := do
  let child ← call production
  branch kind [child]

end SwiftMangling.Grammar
