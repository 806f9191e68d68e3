import SwiftMangling.Diagnostics
import SwiftMangling.Text.Numeral

/-!
Changing settings by text. A text is read as the kind of value that the setting has now, and stays a
text where that is neither a flag nor a number. A list of items is applied in order up to the first
one that fails.
-/

namespace SwiftMangling

/-- Why a setting is not changed. -/
inductive SettingsError where
  | unknownKey (name : Text)
  | notTruth (source : Text)
  | notNumber (source : Text) (fault : Numeral.Fault)
  /-- The text of an environment cannot have a null character. -/
  | nullCharacter
  deriving DecidableEq, Repr

namespace SettingsError

def message : SettingsError → Text
  | unknownKey name => "unknown config key " ++ name
  | notTruth source => "Invalid value for boolean conversion: " ++ source
  | notNumber source fault => fault.message source
  | nullCharacter => "embedded null byte"

/-- What is written to standard error when the error arises. -/
def log (settings : Settings) : SettingsError → Text
  | unknownKey name => Diagnostics.line settings .error ("BadConfig unknown key " ++ name)
  | _ => []

end SettingsError

def readTruth (source : Text) : Except SettingsError Setting :=
  match Text.truth? source with
  | some value => .ok (.flag value)
  | none => .error (.notTruth source)

def readNumber (source : Text) : Except SettingsError Setting :=
  match Numeral.int? source with
  | .ok value => .ok (.number value)
  | .error fault => .error (.notNumber source fault)

namespace Settings

/-- Names that are no keys but are kept for numbers, as measures of the record of settings. -/
def reservedForNumbers : List Text :=
  ["__basicsize__", "__itemsize__", "__flags__", "__dictoffset__", "__weakrefoffset__"]

def isReserved (name : Text) : Bool :=
  reservedForNumbers.any fun reserved => reserved = name

/-- Reads a text as a value of the kind that a key has now. -/
def read (settings : Settings) (key : Key) (source : Text) : Except SettingsError Setting :=
  match settings.get key with
  | .absent => .ok (.text source)
  | .flag _ => readTruth source
  | .number _ => readNumber source
  | .text _ => .ok (.text source)

/-- Reads a text for the key with a name. Under a name that is no key it stays a text, unless the
name is kept for numbers. -/
def convert (settings : Settings) (name source : Text) : Except SettingsError Setting :=
  match Key.ofName? name with
  | some key => settings.read key source
  | none => if isReserved name then readNumber source else .ok (.text source)

/-- Changes the setting with a name. -/
def assign (settings : Settings) (name : Text) (value : Setting) : Except SettingsError Settings :=
  match Key.ofName? name with
  | some key => .ok (settings.set key value)
  | none => .error (.unknownKey name)

/-- Changes the setting with a name to the value that a text spells. The text is read before the
name is looked up. -/
def update (settings : Settings) (name source : Text) : Except SettingsError Settings :=
  (settings.convert name source).bind (settings.assign name)

/-- The name and the text of an item, which stand around its first equals sign. -/
def splitItem? : Text → Option (Text × Text)
  | [] => none
  | c :: cs =>
    if c = CodePoint.ofChar '=' then some ([], cs)
    else (splitItem? cs).map fun (name, source) => (c :: name, source)

/-- Applies items in order; an item without an equals sign is passed over. -/
def loadItems (settings : Settings) : List Text → Settings × Option SettingsError
  | [] => (settings, none)
  | item :: items =>
    match splitItem? item with
    | none => loadItems settings items
    | some (name, source) =>
      match settings.update (Text.strip name) (Text.strip source) with
      | .ok settings => loadItems settings items
      | .error e => (settings, some e)

/-- Applies the items of a list with commas; what precedes a failing item stays applied. -/
def load (settings : Settings) (source : Text) : Settings × Option SettingsError :=
  if source.any fun c => c.val = 0 then (settings, some .nullCharacter)
  else settings.loadItems (Text.splitOn (CodePoint.ofChar ',') source)

end Settings

end SwiftMangling
