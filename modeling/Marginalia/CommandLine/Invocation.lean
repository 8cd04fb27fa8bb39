import Marginalia.CommandLine.Arguments
import Marginalia.Settings.Basic

/-! # Invocations

What the command line asks for: one of three tasks, with the file of the settings.  The file may be
named before and behind the task, where the later name counts, or else by a variable of the
environment.

`Request.ofArguments` reads the arguments.
-/
namespace Marginalia.CommandLine

/-- What is to be done. -/
inductive Task where
  /-- Compile a document and its highlights to LaTeX. -/
  | compile (document highlights : String) (tags output : Option String) (isStandalone : Bool)
  /-- Print the visible text of a document. -/
  | showText (document : String)
  /-- Print the regions of a converted text. -/
  | listRegions (converted : String)
  deriving DecidableEq, Repr

/-- A task with the file of its settings. -/
structure Invocation where
  settings : Option String
  task : Task
  deriving DecidableEq, Repr

/-- What the arguments ask for. -/
inductive Request where
  | invocation (invocation : Invocation)
  /-- The version of the program or of one of its tasks. -/
  | version (command : Option String)
  | help
  deriving DecidableEq, Repr

/-- The variable that names the file of the settings. -/
def settingsVariable : String := "GLOSS_CONFIG"

/-- The option that names the file of the settings. -/
def settingsOption : String × Option Char := ("config", none)

/-- What may come before a task. -/
def topGrammar : Grammar where
  options := [settingsOption]
  switches := []
  operands := []
  hasCommands := true

/-- What may come behind the name of a task. -/
def taskGrammar? : String → Option Grammar
  | "export" => some {
      options := [settingsOption, ("tags", none), ("output", some 'o')]
      switches := ["standalone"]
      operands := ["DOCUMENT", "HIGHLIGHTS"]
      hasCommands := false }
  | "text" => some {
      options := [settingsOption], switches := [], operands := ["DOCUMENT"], hasCommands := false }
  | "regions" => some {
      options := [settingsOption], switches := [], operands := ["CONVERTED"], hasCommands := false }
  | _ => none

/-- The task of a level of arguments. -/
def Task.ofLevel (name : String) (level : Level) : Except UsageError Task :=
  match name, level.operands.reverse with
  | "export", document :: highlights :: _ =>
    .ok (.compile document highlights (level.value? "tags") (level.value? "output")
      (level.switches.contains "standalone"))
  | "export", [_] => .error (.missingOperand "HIGHLIGHTS")
  | "text", document :: _ => .ok (.showText document)
  | "regions", converted :: _ => .ok (.listRegions converted)
  | "regions", [] => .error (.missingOperand "CONVERTED")
  | _, _ => .error (.missingOperand "DOCUMENT")

/-- Checks a level in the end; an empty name in the environment is a fault unless an option makes
up for it. -/
def Level.finish (level : Level) (named : Option String) : Except UsageError Level := do
  let level ← level.settle
  if (level.value? settingsOption.1).isNone && named = some "" then
    throw (.emptyValue settingsVariable)
  return level

/-- Reads the arguments of a task; `top` is the level before it. -/
def Request.ofTask (named : Option String) (top : Level) (name : String)
    (arguments : List String) : Except UsageError Request := do
  match taskGrammar? name with
  | none => if name = "help" then return .help else throw (.unknownCommand name)
  | some grammar =>
    match ← Level.empty.read grammar arguments with
    | .version => return .version (some name)
    | .help => return .help
    | .command _ name _ => throw (.unknownCommand name)
    | .complete level =>
      let level ← level.finish named
      let task ← Task.ofLevel name level
      let top ← top.finish named
      let settings :=
        (level.value? settingsOption.1).or ((top.value? settingsOption.1).or named)
      return .invocation ⟨settings, task⟩

/-- Reads the arguments; `named` is the value of the variable for the settings. -/
def Request.ofArguments (named : Option String) (arguments : List String) :
    Except UsageError Request := do
  match ← Level.empty.read topGrammar arguments with
  | .version => return .version none
  | .help => return .help
  | .command top name rest => Request.ofTask named top name rest
  | .complete level =>
    let _ ← level.finish named
    throw .missingCommand

end Marginalia.CommandLine
