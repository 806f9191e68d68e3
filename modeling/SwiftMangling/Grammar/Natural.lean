import SwiftMangling.Grammar.Assembly

/-!
Numbers in mangled names. An index is written one less than its value, with nothing at all for
zero, and ends in an underscore.
-/

namespace SwiftMangling.Grammar

def index : Parser Nat := do
  if ← accept "_" then pure 0
  else
    let n ← natural
    demand "_"
    pure (n + 1)

def indexNode : Parser Node := do
  let n ← index
  numbered .number n

/-- The size of a builtin type: a number and an underscore. -/
def builtinSize : Parser Nat := do
  let n ← natural
  demand "_"
  pure n

end SwiftMangling.Grammar
