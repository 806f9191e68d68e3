import SwiftMangling.Command.Batch
import SwiftMangling.Settings.Update

/-!
The program as a function: from the arguments, the standard input and the text of the environment
to what is written and how it ends.
-/

namespace SwiftMangling.Program

/-- What a command of the program does. -/
inductive Action where
  | config
  | set
  | demangle (form : Form)
  deriving DecidableEq, Repr

def configCommand : Command Action where
  expression := "config"
  doc := some " show the configuration "
  action := .config

def setCommand : Command Action where
  expression := "set"
  doc := some " set a configuration value\n\n    usage: set KEY VALUE\n    "
  action := .set

def symbolCommand : Command Action where
  expression := "symbol"
  doc := some (" demangle swift symbols\n\n    usage: symbol [name ...]\n"
    ++ "    prints the node tree of each '_T' symbol, names are read\n"
    ++ "    from stdin, one per line, when none is given.\n    ")
  action := .demangle .symbol

def typeCommand : Command Action where
  expression := "type"
  doc := some (" demangle swift type names\n\n    usage: type [name ...]\n"
    ++ "    same as 'symbol' for bare type manglings, without the '_T' prefix.\n    ")
  action := .demangle .type

def commands : CommandTree Action :=
  .ofCommands [configCommand, setCommand, symbolCommand, typeCommand]

/-- How a run ends. -/
inductive Ending where
  | exit (code : Nat)
  /-- An error that the program does not handle. -/
  | aborted (error : SettingsError)
  /-- What is written was cut short. -/
  | cut
  deriving DecidableEq, Repr

/-- What a run comes to. -/
structure Report where
  written : Written := {}
  /-- The name of the part that was timed; a line with its duration follows the other lines of
  standard error. -/
  timed : Option Text := none
  ending : Ending := .exit 0
  deriving DecidableEq, Repr

namespace Report

/-- A run that ends well, unless what it writes is cut short. -/
def ofWritten (written : Written) (timed : Option Text := none) : Report :=
  if written.isCut then { written, ending := .cut } else { written, timed }

end Report

/-- Sets a value; a text that is no value of the kind is reported and has no effect. -/
def runSet (settings : Settings) : List Text → Report
  | [name, source] =>
    match settings.update name source with
    | .ok _ => {}
    | .error (.unknownKey name) =>
      { written := { err := SettingsError.log settings (.unknownKey name) }, ending := .exit 1 }
    | .error e =>
      { written :=
          { err := Diagnostics.line settings .error
              ("bad value for " ++ name ++ ": " ++ e.message) } }
  | _ => { written := { out := setCommand.help ++ [Text.newline] } }

/-- Reads the names given, or those of the standard input if none is given. The timing line of the
first profiler mode is reported; the statistics that the second one prints after the trees are left
out, and a run in that mode writes what it writes unprofiled. -/
def runDemangle (form : Form) (settings : Settings) (input : Text) (arguments : List Text) :
    Report :=
  let names := if arguments.isEmpty then Batch.names input else arguments
  Report.ofWritten (Batch.written form settings names)
    (if settings.profilerMode.toInt = 1 then some "DemangleBatch" else none)

def runAction (settings : Settings) (input : Text) (arguments : List Text) : Action → Report
  | .config => Report.ofWritten (settings.listing arguments.head?)
  | .set => runSet settings arguments
  | .demangle form => runDemangle form settings input arguments

def runCommand (settings : Settings) (input : Text) (arguments : List Text) : Report :=
  let resolution := commands.resolve arguments
  match resolution with
  | .invoke command rest => runAction settings input rest command.action
  | _ =>
    { written := resolution.written settings arguments
      ending := .exit (if resolution.succeeded then 0 else 1) }

/-- Runs the program. Settings of the environment that fail end it: an unknown key is reported, and
a value of the wrong kind is not handled. -/
def run (arguments : List Text) (input : Text) (environment : Option Text) : Report :=
  match Settings.load {} (environment.getD []) with
  | (settings, none) => runCommand settings input arguments
  | (settings, some (.unknownKey name)) =>
    { written := { err := SettingsError.log settings (.unknownKey name) }, ending := .exit 1 }
  | (_, some e) => { ending := .aborted e }

/-- Whether a run depends on the standard input: a batch without names does. -/
def readsInput (arguments : List Text) (environment : Option Text) : Bool :=
  match Settings.load {} (environment.getD []), commands.resolve arguments with
  | (_, none), .invoke command [] =>
    match command.action with
    | .demangle _ => true
    | _ => false
  | _, _ => false

/-- Milliseconds as seconds with three decimals. -/
def seconds (milliseconds : Nat) : Text :=
  let fraction := Nat.toDigits 10 (1000 + milliseconds % 1000)
  Decimal.text (milliseconds / 1000) ++ "." ++ (fraction.drop 1).map CodePoint.ofChar

/-- The line that says how long a part took; the duration is in seconds. -/
def timingLine (name duration : Text) : Text :=
  Diagnostics.plainLine (name ++ "() takes " ++ duration ++ " second(s).")

end SwiftMangling.Program
