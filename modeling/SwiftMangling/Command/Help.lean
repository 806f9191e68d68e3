import SwiftMangling.Command.Tree
import SwiftMangling.Diagnostics
import SwiftMangling.Text.Blank
import SwiftMangling.Written

/-!
What resolving a command line writes: help on a node, the names that an ambiguous word begins, or a
complaint about words that name nothing.
-/

namespace SwiftMangling

namespace Command

variable {α : Type}

/-- The documentation, unless it is empty. -/
def doc? (command : Command α) : Option Text :=
  command.doc.filter fun doc => !doc.isEmpty

def title (command : Command α) : Text :=
  match command.doc? with
  | some doc => Text.strip (Text.firstLine doc)
  | none => []

def help (command : Command α) : Text :=
  match command.doc? with
  | some doc => Text.strip doc
  | none => "This command is not documented."

/-- The line of diagnostics for a command that is added to a tree. -/
def registration (settings : Settings) (command : Command α) : Text :=
  Diagnostics.line settings .debug ("command '" ++ command.expression ++ "' registered.")

end Command

namespace CommandTree

variable {α : Type}

def childTitle (name : Text) (tree : CommandTree α) : Text :=
  match tree.command? with
  | some command => command.title
  | none => "See '... " ++ name ++ " ?'"

/-- Puts a child before the first one whose name is not before its own. -/
def insertByName (child : Text × CommandTree α) :
    List (Text × CommandTree α) → List (Text × CommandTree α)
  | [] => [child]
  | other :: others =>
    if Text.le child.1 other.1 then child :: other :: others
    else other :: insertByName child others

/-- The children in the order of their names. -/
def sortedChildren (tree : CommandTree α) : List (Text × CommandTree α) :=
  tree.children.foldr insertByName []

def childLine (name : Text) (tree : CommandTree α) : Text :=
  "  " ++ Text.padRight 12 name ++ " -- " ++ childTitle name tree ++ [Text.newline]

/-- The help of a node: that of its command, and a list of the children. -/
def help (tree : CommandTree α) : Text :=
  let own : Text := match tree.command? with
    | some command => command.help ++ [Text.newline]
    | none => []
  let list : Text :=
    if tree.children.isEmpty then []
    else "Commands,\n" ++ tree.sortedChildren.flatMap fun (name, child) => childLine name child
  own ++ list

end CommandTree

namespace Resolution

variable {α : Type}

/-- Whether the words came to a command or to help. -/
def succeeded : Resolution α → Bool
  | invoke _ _ => true
  | help _ => true
  | ambiguous _ _ => false
  | unknown => false

/-- What is written about the words themselves, before a command is run. -/
def written (settings : Settings) (words : List Text) : Resolution α → Written
  | invoke _ _ => {}
  | help tree => { out := tree.help }
  | ambiguous word names =>
    { out := "'" ++ word ++ "' is an ambiguous command, candidate list:\n"
        ++ Text.join " " names ++ [Text.newline] }
  | unknown =>
    { err := Diagnostics.line settings .error
        ("error: '" ++ Text.join " " words ++ "' is not a valid command.") }

end Resolution

end SwiftMangling
