import SwiftMangling.Diagnostics
import SwiftMangling.Grammar.Budget

/-!
Reading a mangled name under settings. The answer is a tree, or the name is no mangling, or its
nesting is deeper than the budget; each of the last two has one line of diagnostics. There is no
answer if a number is needed that is overlong, or if a rule of building trees is broken.
-/

namespace SwiftMangling

/-- What a name turns out to be. -/
inductive Verdict where
  | tree (root : Node)
  | notMangled
  | tooDeep
  /-- A number has more digits than are written or read. -/
  | overlong
  /-- A rule of building trees is broken. -/
  | broken (breach : Grammar.Breach)
  deriving Inhabited

namespace Verdict

/-- The verdict on an outcome under a budget. That the budget is exhausted is not said with a budget
that is overlong. -/
def ofOutcome (budget : Int) : Grammar.Outcome Node → Verdict
  | .found root _ => tree root
  | .refused _ => notMangled
  | .stopped .exhausted => if Decimal.isWritable budget then tooDeep else overlong
  | .stopped .overlong => overlong
  | .stopped (.broken breach) => broken breach

def tree? : Verdict → Option Node
  | tree root => some root
  | _ => none

/-- What is written about a name to standard error. -/
def log (settings : Settings) (name : MangledName) : Verdict → Text
  | tree _ => []
  | notMangled => Diagnostics.notMangled settings name
  | tooDeep => Diagnostics.tooDeep settings name settings.maxDepth.toInt
  | overlong => []
  | broken _ => []

end Verdict

/-- The two forms of mangled names. -/
inductive Form where
  /-- A complete symbol. -/
  | symbol
  /-- A type without the prefix of symbols. -/
  | type
  deriving DecidableEq, Repr

namespace Form

def parser (form : Form) (call : Grammar.Calls) : Grammar.Parser Node :=
  match form with
  | symbol => Grammar.symbol call
  | type => call .type

end Form

/-- Reads bytes within a budget and a limit for natural numbers. -/
def parseBytes (form : Form) (budget : Nat) (limit : Int) (bytes : Bytes) : Grammar.Outcome Node :=
  form.parser (Grammar.parse budget) limit ⟨bytes, []⟩

/-- Reads a name; a negative depth is a budget of nothing. -/
def demangle (form : Form) (settings : Settings) (name : MangledName) : Verdict :=
  .ofOutcome settings.maxDepth.toInt
    (parseBytes form settings.maxDepth.toInt.toNat settings.maxNatural.toInt name.toBytes)

end SwiftMangling
