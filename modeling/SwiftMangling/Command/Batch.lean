import SwiftMangling.Command.Help
import SwiftMangling.Demangle

/-!
Batches of names: the tree of each name, or a line for a name that is none, and a count of those. A
batch ends early at a name on which there is no answer.
-/

namespace SwiftMangling.Batch

/-- The names in a text: its lines without the blanks around them, blank lines left out. -/
def names (input : Text) : List Text :=
  ((Text.splitOn Text.newline input).map Text.strip).filter fun line => !line.isEmpty

/-- A name with what it turned out to be. -/
structure Answer where
  name : Text
  verdict : Verdict

namespace Answer

def ofName (form : Form) (settings : Settings) (name : Text) : Answer :=
  ⟨name, demangle form settings (.text name)⟩

def isKnown (answer : Answer) : Bool :=
  answer.verdict.tree?.isSome

def log (settings : Settings) (answer : Answer) : Text :=
  answer.verdict.log settings (.text answer.name)

/-- What is written for a name. -/
def written (settings : Settings) (answer : Answer) : Written :=
  match answer.verdict with
  | .tree root =>
    match root.dump? with
    | some lines => { out := lines ++ [Text.newline] }
    | none => { isCut := true }
  | .overlong => { isCut := true }
  | .broken _ => { isCut := true }
  | _ => { out := "<unknown> " ++ answer.name ++ [Text.newline], err := answer.log settings }

end Answer

/-- The line that counts the names that are not known, if there are any. -/
def summary (settings : Settings) (answers : List Answer) : Text :=
  let failed := answers.countP fun answer => !answer.isKnown
  if failed = 0 then []
  else
    Diagnostics.line settings .verbose
      (Decimal.text failed ++ " of " ++ Decimal.text answers.length ++ " name(s) not demangled.")

def written (form : Form) (settings : Settings) (names : List Text) : Written :=
  let answers := names.map (Answer.ofName form settings)
  Written.concat (answers.map (Answer.written settings)) ++ { err := summary settings answers }

end SwiftMangling.Batch
