import SwiftMangling.Decimal
import SwiftMangling.Written

/-!
The settings of the decoder and its diagnostics: six keys in a fixed order, each with a value. A
value is meant to be a flag or a number, but a key holds whatever it is given. A flag counts as 1 or
0 where a number is needed; a text does not count as one.
-/

namespace SwiftMangling

/-- The value of a setting. -/
inductive Setting where
  | absent
  | flag (value : Bool)
  | number (value : Int)
  | text (value : Text)
  deriving DecidableEq, Repr, Inhabited

namespace Setting

/-- The value as a number. Only typed settings are meant (`Settings.IsTyped`): where a key for a number
holds a text or nothing, the program fails on its use, and the zero here has no meaning. -/
def toInt : Setting → Int
  | absent => 0
  | flag value => if value then 1 else 0
  | number value => value
  | text _ => 0

def isOn : Setting → Bool
  | absent => false
  | flag value => value
  | number value => value ≠ 0
  | text value => !value.isEmpty

/-- The value as it is shown, unless it is an overlong number. -/
def shown? : Setting → Option Text
  | absent => some "None"
  | flag true => some "True"
  | flag false => some "False"
  | number value => Decimal.text? value
  | text value => some value

end Setting

/-- What can be set. -/
inductive Key where
  /-- The budget for nested productions. -/
  | maxDepth
  /-- The largest natural number in a name. -/
  | maxNatural
  /-- The length of a name in diagnostics. -/
  | shortLength
  /-- The lowest level of diagnostics that is shown. -/
  | loggingLevel
  /-- Whether warnings and errors are coloured. -/
  | loggingColor
  /-- Whether batches are timed, which is 1, or profiled, which is 2. The report of a profiled batch is
  not modelled. -/
  | profilerMode
  deriving DecidableEq, Repr, Inhabited

namespace Key

def all : List Key :=
  [maxDepth, maxNatural, shortLength, loggingLevel, loggingColor, profilerMode]

def name : Key → Text
  | maxDepth => "cfgDemangleMaxDepth"
  | maxNatural => "cfgDemangleMaxNatural"
  | shortLength => "cfgStringShortLength"
  | loggingLevel => "cfgLoggingLevel"
  | loggingColor => "cfgLoggingColor"
  | profilerMode => "cfgProfilerMode"

def ofName? (name : Text) : Option Key :=
  all.find? fun key => key.name = name

theorem ofName?_name (key : Key) : ofName? key.name = some key := by
  cases key <;> decide +kernel

end Key

/-- A value for every key. -/
structure Settings where
  maxDepth : Setting := .number 128
  maxNatural : Setting := .number 18446744073709551615
  shortLength : Setting := .number 50
  loggingLevel : Setting := .number 30
  loggingColor : Setting := .flag true
  profilerMode : Setting := .number 0
  deriving DecidableEq, Repr, Inhabited

namespace Settings

def get (settings : Settings) : Key → Setting
  | .maxDepth => settings.maxDepth
  | .maxNatural => settings.maxNatural
  | .shortLength => settings.shortLength
  | .loggingLevel => settings.loggingLevel
  | .loggingColor => settings.loggingColor
  | .profilerMode => settings.profilerMode

def set (settings : Settings) (key : Key) (value : Setting) : Settings :=
  match key with
  | .maxDepth => { settings with maxDepth := value }
  | .maxNatural => { settings with maxNatural := value }
  | .shortLength => { settings with shortLength := value }
  | .loggingLevel => { settings with loggingLevel := value }
  | .loggingColor => { settings with loggingColor := value }
  | .profilerMode => { settings with profilerMode := value }

/-- The line of a key with its value. -/
def line (settings : Settings) (key : Key) : Written :=
  let start := key.name ++ " = "
  match (settings.get key).shown? with
  | some value => { out := start ++ value ++ [Text.newline] }
  | none => { out := start, isCut := true }

/-- The lines of all keys, or of the one key that has the name. -/
def listing (settings : Settings) (only : Option Text) : Written :=
  Written.concat
    ((Key.all.filter fun key => only.all fun name => key.name = name).map settings.line)

theorem get_set (settings : Settings) (key other : Key) (value : Setting) :
    (settings.set key value).get other = if other = key then value else settings.get other := by
  cases key <;> cases other <;> rfl

end Settings

end SwiftMangling
