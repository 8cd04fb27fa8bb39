import Marginalia.Diagnostic
import Marginalia.Markup.Piece
import Marginalia.Style
import Marginalia.Text.Number

/-! # Settings

What an export can be told besides its document: the converter to run, how white space counts,
colours, and further restricted contexts.  Every part has a default.  Two variables of the
environment override the converter and its time limit.
-/
namespace Marginalia

open Text

/-- The converter: a program with arguments, and a time limit in seconds. -/
structure ConverterSettings where
  program : String
  arguments : List String
  timeoutSeconds : Nat
  deriving DecidableEq, Repr

/-- The converter used where none is given. -/
def ConverterSettings.standard : ConverterSettings where
  program := "pandoc"
  arguments := ["--from=html", "--to=latex", "--wrap=none"]
  timeoutSeconds := 60

/-- Contexts that are restricted besides the known ones. -/
structure RestrictedSettings where
  commands : List String
  environments : List String
  deriving DecidableEq, Repr

/-- The settings of an export. -/
structure Settings where
  converter : ConverterSettings
  whitespace : Markup.Whitespace
  style : StyleSettings
  restricted : RestrictedSettings
  deriving DecidableEq, Repr

/-- The settings used where none are given. -/
def Settings.standard : Settings where
  converter := .standard
  whitespace := .collapse
  style := .standard
  restricted := ⟨[], []⟩

/-- Why settings cannot be had. -/
inductive SettingsError where
  | unreadable
  | unsupportedFormat
  | badJson
  | badToml
  /-- The variable for the time limit does not hold a number. -/
  | badTimeout (value : String)
  deriving DecidableEq, Repr

/-- The variable that names the converter. -/
def converterVariable : String := "GLOSS_CONVERTER"

/-- The variable that gives the time limit in seconds. -/
def timeoutVariable : String := "GLOSS_CONVERTER_TIMEOUT"

/-- What is told of an error with the settings in the file of the given name. -/
def SettingsError.diagnostic (path : String) : SettingsError → Diagnostic
  | unreadable => .plain ("failed to read config file " ++ path) "gloss::config::io"
  | unsupportedFormat =>
    { message := "unsupported config format for " ++ path
      code := "gloss::config::format"
      help := some "use a .json or .toml file"
      labels := none }
  | badJson => .plain ("invalid JSON in " ++ path) "gloss::config::json"
  | badToml => .plain ("invalid TOML in " ++ path) "gloss::config::toml"
  | badTimeout value =>
    .plain ("invalid value " ++ String.ofList (quoted value.toList) ++
      " for environment variable " ++ timeoutVariable) "gloss::config::env"

/-- What the environment says about the converter. -/
structure Overrides where
  program : Option String
  timeout : Option String
  deriving DecidableEq, Repr

namespace Settings

/-- The settings with another converter, unless its name is empty. -/
def withProgram (settings : Settings) (program : Option String) : Settings :=
  match program with
  | none => settings
  | some program =>
    if program.isEmpty then settings
    else { settings with converter := { settings.converter with program } }

/-- The settings with what the environment says. -/
def override (settings : Settings) (overrides : Overrides) : Except SettingsError Settings :=
  let settings := settings.withProgram overrides.program
  match overrides.timeout with
  | none => .ok settings
  | some value =>
    match (number? 10 value.toList).filter (· < wordBound) with
    | none => .error (.badTimeout value)
    | some timeoutSeconds =>
      .ok { settings with converter := { settings.converter with timeoutSeconds } }

/-- The time limit in milliseconds. -/
def timeoutMilliseconds (settings : ConverterSettings) : Nat :=
  settings.timeoutSeconds * 1000

end Settings

end Marginalia
