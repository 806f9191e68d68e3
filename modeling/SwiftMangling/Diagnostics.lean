import SwiftMangling.MangledName
import SwiftMangling.Settings.Basic

/-!
Lines of diagnostics. A line has a level and is left out when the level is below the one that the
settings ask for; warnings and errors are coloured.
-/

namespace SwiftMangling

/-- The levels of diagnostics. -/
inductive Level where
  | debug
  | verbose
  | warning
  | error
  deriving DecidableEq, Repr

namespace Level

def rank : Level → Int
  | debug => 10
  | verbose => 20
  | warning => 40
  | error => 50

/-- The number of the terminal colour. -/
def color? : Level → Option Text
  | debug => none
  | verbose => none
  | warning => some "33"
  | error => some "31"

end Level

namespace Diagnostics

/-- A message between the escape sequences that set a colour and take it back. -/
def colored (color message : Text) : Text :=
  "\x1b[" ++ color ++ "m" ++ message ++ "\x1b[0m"

/-- The line of a message whose level is shifted by an offset, or nothing if it is not shown. A
level that comes to zero is always shown. -/
def line (settings : Settings) (level : Level) (message : Text) (offset : Int := 0) : Text :=
  let rank := level.rank + offset
  if rank ≠ 0 ∧ rank < settings.loggingLevel.toInt then []
  else
    let shown := match level.color? with
      | some color => if settings.loggingColor.isOn then colored color message else message
      | none => message
    shown ++ [Text.newline]

/-- The line of a message that is shown at any level, after a number of spaces. -/
def plainLine (message : Text) (padding : Int := 0) : Text :=
  List.replicate padding.toNat CodePoint.space ++ message ++ [Text.newline]

/-- A name in one line, within a limit or, where that is negative, within the length that is
set. -/
def brief (settings : Settings) (name : MangledName) (limit : Int := -1) : Text :=
  name.brief (if limit < 0 then settings.shortLength.toInt else limit)

/-- The line for a name whose nesting is deeper than the budget. -/
def tooDeep (settings : Settings) (name : MangledName) (budget : Int) : Text :=
  line settings .warning
    ("DepthExceeded " ++ brief settings name ++ " (limit " ++ Decimal.text budget ++ ")")

/-- The error that goes with that line. -/
def tooDeepMessage (budget : Int) : Text :=
  "nesting deeper than " ++ Decimal.text budget

/-- The line for a name that is no mangling. -/
def notMangled (settings : Settings) (name : MangledName) : Text :=
  line settings .debug ("cannot demangle " ++ brief settings name)

end Diagnostics

end SwiftMangling
