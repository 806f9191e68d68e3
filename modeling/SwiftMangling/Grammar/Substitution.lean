import SwiftMangling.Grammar.Identifier

/-!
Substitutions and modules. After an `S` stands a letter for a well-known module or type, or the
index of a recorded node.
-/

namespace SwiftMangling.Grammar

def stdlibModule : Node :=
  .named .moduleName "Swift"

/-- The kind and name of a well-known type of the standard library. -/
def standardType? : Char → Option (Kind × String)
  | 'a' => some (.structureDecl, "Array")
  | 'b' => some (.structureDecl, "Bool")
  | 'c' => some (.structureDecl, "UnicodeScalar")
  | 'd' => some (.structureDecl, "Double")
  | 'f' => some (.structureDecl, "Float")
  | 'i' => some (.structureDecl, "Int")
  | 'V' => some (.structureDecl, "UnsafeRawPointer")
  | 'v' => some (.structureDecl, "UnsafeMutableRawPointer")
  | 'P' => some (.structureDecl, "UnsafePointer")
  | 'p' => some (.structureDecl, "UnsafeMutablePointer")
  | 'q' => some (.enumDecl, "Optional")
  | 'Q' => some (.enumDecl, "ImplicitlyUnwrappedOptional")
  | 'R' => some (.structureDecl, "UnsafeBufferPointer")
  | 'r' => some (.structureDecl, "UnsafeMutableBufferPointer")
  | 'S' => some (.structureDecl, "String")
  | 'u' => some (.structureDecl, "UInt")
  | _ => none

def stdlibType (kind : Kind) (name : String) : Node :=
  .branch kind [stdlibModule, .named .identifier name]

/-- What stands after the `S` of a substitution. -/
def substitution : Parser Node := do
  if ← atEnd then refuse
  else if ← accept "o" then pure (.named .moduleName "__ObjC")
  else if ← accept "C" then pure (.named .moduleName "__C")
  else
    match standardType? (← peek) with
    | some (kind, name) =>
      let _ ← next
      pure (stdlibType kind name)
    | none =>
      let position ← index
      recalled position

/-- A module, which is recorded when it is spelled out. -/
def moduleName : Parser Node := do
  if ← accept "s" then pure stdlibModule
  else if ← accept "S" then
    let node ← substitution
    if node.kind = .moduleName then pure node else refuse
  else
    let node ← identifier (some .moduleName)
    record node
    pure node

end SwiftMangling.Grammar
