import SwiftMangling.Text.Basic

/-!
Trees of commands. A command stands at the end of a path of words; a word selects the child with
that name, or else the only child whose name it begins.
-/

namespace SwiftMangling

/-- A command with its path of words, its documentation and what it does. -/
structure Command (α : Type) where
  /-- The words of the path, with a space between each two. -/
  expression : Text
  doc : Option Text
  action : α
  deriving Repr, Inhabited

/-- A tree of commands; the children keep the order in which they were added. -/
inductive CommandTree (α : Type) where
  | node (command : Option (Command α)) (children : List (Text × CommandTree α))
  deriving Inhabited

namespace CommandTree

variable {α : Type}

def empty : CommandTree α :=
  node none []

def command? : CommandTree α → Option (Command α)
  | node command _ => command

def children : CommandTree α → List (Text × CommandTree α)
  | node _ children => children

/-- Changes the child with a name, or adds one at the end. -/
def changeChild (name : Text) (change : CommandTree α → CommandTree α) :
    List (Text × CommandTree α) → List (Text × CommandTree α)
  | [] => [(name, change empty)]
  | (key, child) :: rest =>
    if key = name then (key, change child) :: rest else (key, child) :: changeChild name change rest

/-- Puts a command at the end of a path, in the place of one that stood there. -/
def insertAt (command : Command α) : List Text → CommandTree α → CommandTree α
  | [], node _ children => node (some command) children
  | word :: words, node old children =>
    node old (changeChild word (insertAt command words) children)

def insert (tree : CommandTree α) (command : Command α) : CommandTree α :=
  tree.insertAt command (Text.splitOn CodePoint.space command.expression)

def ofCommands (commands : List (Command α)) : CommandTree α :=
  commands.foldl insert empty

/-- What a word selects among the children of a node. -/
inductive Selection (α : Type) where
  | child (tree : CommandTree α)
  | nothing
  /-- The names that the word begins, in order. -/
  | ambiguous (names : List Text)

/-- The child with the name of the word, or the only child whose name the word begins. -/
def select (tree : CommandTree α) (word : Text) : Selection α :=
  match tree.children.find? fun (name, _) => name = word with
  | some (_, child) => .child child
  | none =>
    match tree.children.filter fun (name, _) => word.isPrefixOf name with
    | [] => .nothing
    | [(_, child)] => .child child
    | candidates => .ambiguous (Text.sorted (candidates.map Prod.fst))

end CommandTree

/-- What a list of words comes to. -/
inductive Resolution (α : Type) where
  | invoke (command : Command α) (arguments : List Text)
  /-- The words ask for help on a node. -/
  | help (tree : CommandTree α)
  | ambiguous (word : Text) (names : List Text)
  | unknown

namespace CommandTree

variable {α : Type}

/-- The word that asks for help. -/
def helpWord : Text := "?"

/-- Follows the words to the first command on their path. Words that end before a command name
none. -/
def follow : CommandTree α → List Text → Resolution α
  | _, [] => .unknown
  | tree, word :: words =>
    if word = helpWord then .help tree
    else
      match tree.select word with
      | .nothing => .unknown
      | .ambiguous names => .ambiguous word names
      | .child child =>
        match child.command? with
        | none => follow child words
        | some command =>
          if words.head? = some helpWord then .help child else .invoke command words

/-- Follows the words from the root, where no words at all ask for help. -/
def resolve (tree : CommandTree α) (words : List Text) : Resolution α :=
  if words.isEmpty then .help tree else tree.follow words

end CommandTree

end SwiftMangling
