import SwiftMangling.Text.Basic

/-!
What is written to the two output streams. Writing is cut short by a number that is overlong:
nothing that would follow it is written.
-/

namespace SwiftMangling

/-- What is written to the two output streams. -/
structure Written where
  out : Text := []
  err : Text := []
  /-- Whether an overlong number cut the writing short. -/
  isCut : Bool := false
  deriving DecidableEq, Repr, Inhabited

namespace Written

/-- What is written by two parts in order. -/
def append (first second : Written) : Written :=
  if first.isCut then first
  else
    { out := first.out ++ second.out
      err := first.err ++ second.err
      isCut := second.isCut }

instance : Append Written := ⟨append⟩

def concat (parts : List Written) : Written :=
  parts.foldr append {}

end Written

end SwiftMangling
