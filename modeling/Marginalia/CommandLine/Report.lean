import Marginalia.CommandLine.Invocation
import Marginalia.Converter
import Marginalia.Export
import Marginalia.Highlight.Json
import Marginalia.Json.Parser
import Marginalia.Json.Printer
import Marginalia.Settings.Reading
import Marginalia.Tag.Json

/-! # Running the command line

A run reads files, and either fails or reports: what it prints, what it tells on the way, and the
file that it wants written.  `run` decides all of this from the arguments, the environment and the
contents of the files.
-/
namespace Marginalia.CommandLine

open Text

/-- What a run can see: the files and the variables of the environment. -/
structure Surroundings where
  contents : String → Option (List UInt8)
  variableValue : String → Option String

/-- Why a run fails. -/
inductive Failure where
  | usage (error : UsageError)
  | settings (path : String) (error : SettingsError)
  /-- The file is missing or not in UTF-8. -/
  | unreadable (path : String)
  | badHighlights (path : String)
  | badTags (path : String)
  | notExported (error : ExportError)
  | unwritable (path : String)
  deriving DecidableEq, Repr

namespace Failure

/-- The status with which the program ends. -/
def status : Failure → Nat
  | usage _ => 2
  | _ => 1

/-- The code of the failure, if it has one. -/
def code : Failure → Option String
  | settings path error => some (error.diagnostic path).code
  | notExported error => some error.diagnostic.code
  | _ => none

/-- What is told of the failure. -/
def message : Failure → String
  | usage error => error.message
  | settings path error => (error.diagnostic path).message
  | unreadable path => "failed to read " ++ path
  | badHighlights path => "invalid highlights in " ++ path
  | badTags path => "invalid tag map in " ++ path
  | notExported error => error.diagnostic.message
  | unwritable path => "failed to write " ++ path

end Failure

/-- What a run wants printed, told and written. -/
structure Report where
  /-- What is printed. -/
  output : Text
  /-- What is told before a file is written. -/
  notes : Text
  /-- The file to write, and its text. -/
  file : Option (String × Text)
  /-- What is told once the file is written. -/
  closing : Text

/-- A report that prints and tells. -/
def Report.plain (output notes : Text) : Report :=
  ⟨output, notes, none, []⟩

/-- A text and the end of its line. -/
def line (text : String) : Text :=
  text.toList ++ ['\n']

/-- The text of a file. -/
def Surroundings.read (surroundings : Surroundings) (path : String) : Except Failure Text :=
  match (surroundings.contents path).bind Utf8.decode? with
  | some text => .ok text
  | none => .error (.unreadable path)

/-- What the environment says about the converter. -/
def Surroundings.overrides (surroundings : Surroundings) : Overrides :=
  ⟨surroundings.variableValue converterVariable, surroundings.variableValue timeoutVariable⟩

/-- The settings in a file, or the standard ones, with what the environment says. -/
def Surroundings.settings (surroundings : Surroundings) (path? : Option String) :
    Except Failure Settings :=
  let read := do
    let settings ← match path? with
      | some path => Settings.ofFile path (surroundings.contents path)
      | none => .ok .standard
    settings.override surroundings.overrides
  read.mapError (.settings (path?.getD ""))

/-- Why a highlight was skipped. -/
def SkipReason.text : SkipReason → String
  | .empty => "Empty"
  | .outOfBounds length =>
    "OutOfBounds \x7b text_len: " ++ String.ofList (decimal length) ++ " \x7d"

/-- What is told of a skipped highlight. -/
def skippedNote (skipped : Skipped) : Text :=
  line ("⚠ Skipped highlight " ++ skipped.id ++ " [" ++ String.ofList (decimal skipped.start) ++
    ", " ++ String.ofList (decimal skipped.stop) ++ "): " ++ SkipReason.text skipped.reason)

/-- What is told once a document is written. -/
def writtenNote (kept regions : Nat) (path : String) : Text :=
  line ("✓ " ++ String.ofList (decimal kept) ++ " highlights, " ++
    String.ofList (decimal regions) ++ " regions") ++ line ("✓ Output: " ++ path)

/-- Compiles a document and its highlights. -/
def compile (surroundings : Surroundings) (settings : Settings)
    (document highlights : String) (tags output : Option String) (isStandalone : Bool) :
    Except Failure Report := do
  let markup ← surroundings.read document
  let some spans := (Json.ofText? (← surroundings.read highlights)).bind Highlight.listOfJson?
    | throw (.badHighlights highlights)
  let tags ← match tags with
    | none => pure []
    | some path =>
      let json? := Json.ofText? (← surroundings.read path)
      match json?.bind fun json => (TagMap.ofJson json).tags with
      | some tags => pure tags
      | none => throw (.badTags path)
  let exporter : Exporter := ⟨settings, tags, isStandalone⟩
  let converter := Converter.ofSettings settings.converter
  match (exporter.run converter.convert markup spans).result with
  | .error error => throw (.notExported error)
  | .ok exported =>
    let notes := exported.skipped.flatMap skippedNote
    match output with
    | none => return .plain exported.latex notes
    | some path =>
      let kept := spans.length - exported.skipped.length
      return {
        output := []
        notes
        file := some (path, exported.latex)
        closing := writtenNote kept exported.regionCount path }

/-- Prints the visible text of a document and tells its length. -/
def showText (surroundings : Surroundings) (settings : Settings) (document : String) :
    Except Failure Report := do
  let pieces := Markup.pieces settings.whitespace (← surroundings.read document)
  return .plain (Markup.shownText pieces ++ ['\n'])
    (line (String.ofList (decimal (Markup.units pieces).length) ++ " units"))

/-- A region as an object. -/
def regionJson (region : Region) : Json :=
  let indices := fun indices : List Nat =>
    Json.array (indices.map fun (index : Nat) => .whole index)
  .object [("text", .string (String.ofList region.text)),
    ("active", indices region.active.toList), ("annots", indices region.anchors)]

/-- Prints the regions of a converted text. -/
def listRegions (surroundings : Surroundings) (converted : String) : Except Failure Report := do
  let text := Latex.stripPdfStrings (← surroundings.read converted)
  match Token.ofText text with
  | .error error => throw (.notExported (.token error))
  | .ok tokens =>
    let regions := Json.array ((Region.ofTokens tokens).map regionJson)
    return .plain (regions.pretty ++ ['\n']) []

/-- Runs a task with its settings. -/
def Invocation.run (surroundings : Surroundings) (invocation : Invocation) :
    Except Failure Report := do
  let settings ← surroundings.settings invocation.settings
  match invocation.task with
  | .compile document highlights tags output isStandalone =>
    compile surroundings settings document highlights tags output isStandalone
  | .showText document => showText surroundings settings document
  | .listRegions converted => listRegions surroundings converted

/-- The files that an invocation reads. -/
def Invocation.files (invocation : Invocation) : List String :=
  invocation.settings.toList ++ match invocation.task with
    | .compile document highlights tags _ _ => document :: highlights :: tags.toList
    | .showText document => [document]
    | .listRegions converted => [converted]

/-- The name of the program with its version. -/
def versionText (command : Option String) : String :=
  let suffix := match command with
    | some name => "-" ++ name
    | none => ""
  "gloss-cli" ++ suffix ++ " 0.1.0"

/-- How the program is used. -/
def helpText : String :=
  "Usage: gloss [--config <CONFIG>] export <DOCUMENT> <HIGHLIGHTS> [--tags <TAGS>] " ++
    "[-o <OUTPUT>] [--standalone]\n" ++
  "       gloss [--config <CONFIG>] text <DOCUMENT>\n" ++
  "       gloss [--config <CONFIG>] regions <CONVERTED>"

/-- Runs a request. -/
def Request.run (surroundings : Surroundings) : Request → Except Failure Report
  | .version command => .ok (.plain (line (versionText command)) [])
  | .help => .ok (.plain (line helpText) [])
  | .invocation asked => asked.run surroundings

/-- What the arguments ask for, in the given surroundings. -/
def request (surroundings : Surroundings) (arguments : List String) : Except Failure Request :=
  (Request.ofArguments (surroundings.variableValue settingsVariable) arguments).mapError .usage

/-- Runs the command line. -/
def run (surroundings : Surroundings) (arguments : List String) : Except Failure Report := do
  (← request surroundings arguments).run surroundings

end Marginalia.CommandLine
