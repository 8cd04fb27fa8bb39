import Marginalia.Text.Basic

/-! # Reading arguments

The arguments of one level of a command line are options, switches and operands.  An option takes a
value, which stands behind an equals sign, directly behind its letter, or in the next argument; a
switch takes none.  Two dashes end the options.  Reading stops at the first fault, at a request for
the version or for help, and, where operands are commands, at the first operand.

`Level.read` reads a level and gives the arguments behind it.
-/
namespace Marginalia.CommandLine

/-- Why arguments cannot be read. -/
inductive UsageError where
  | unknownArgument (argument : String)
  | unknownCommand (name : String)
  | missingValue (option : String)
  | emptyValue (name : String)
  | unexpectedValue (switch : String)
  | repeated (option : String)
  | missingOperand (name : String)
  | missingCommand
  deriving DecidableEq, Repr

/-- What is told of an error. -/
def UsageError.message : UsageError → String
  | unknownArgument argument => "unexpected argument '" ++ argument ++ "'"
  | unknownCommand name => "unrecognized subcommand '" ++ name ++ "'"
  | missingValue option => "a value is required for '--" ++ option ++ "' but none was supplied"
  | emptyValue name => "the value for '" ++ name ++ "' must not be empty"
  | unexpectedValue switch => "no value is expected for '--" ++ switch ++ "'"
  | repeated option => "the argument '--" ++ option ++ "' cannot be used multiple times"
  | missingOperand name => "the argument <" ++ name ++ "> is required but was not provided"
  | missingCommand => "a subcommand is required but was not provided"

/-- What a level accepts. -/
structure Grammar where
  /-- The names of the options, with their letters. -/
  options : List (String × Option Char)
  switches : List String
  operands : List String
  /-- Whether the first operand is a command, which ends the level. -/
  hasCommands : Bool

/-- An option whose value is still open to a check. -/
structure Pending where
  option : String
  value : Option String

/-- What has been read of a level. -/
structure Level where
  /-- The options with their values, latest first. -/
  options : List (String × String)
  switches : List String
  /-- The operands, latest first. -/
  operands : List String
  pending : Option Pending

/-- What reading a level comes to. -/
inductive LevelEnd where
  | version
  | help
  /-- The level is read, and a command follows with its arguments. -/
  | command (level : Level) (name : String) (rest : List String)
  | complete (level : Level)

namespace Level

/-- A level of which nothing has been read. -/
def empty : Level :=
  ⟨[], [], [], none⟩

/-- The value of an option. -/
def value? (level : Level) (option : String) : Option String :=
  (level.options.find? fun given => given.1 = option).map Prod.snd

/-- Checks the option that is still open. -/
def settle (level : Level) : Except UsageError Level :=
  match level.pending with
  | none => .ok level
  | some ⟨option, none⟩ => .error (.missingValue option)
  | some ⟨option, some value⟩ =>
    if value.isEmpty then .error (.emptyValue option)
    else if (level.value? option).isSome then .error (.repeated option)
    else .ok { level with options := (option, value) :: level.options, pending := none }

/-- Begins an option, whose value may be given with it. -/
def begin (level : Level) (option : String) (value : Option String) : Except UsageError Level := do
  let level ← level.settle
  let level := { level with pending := some ⟨option, value⟩ }
  if value.isSome then level.settle else return level

/-- Turns a switch on. -/
def turnOn (level : Level) (switch : String) : Except UsageError Level := do
  let level ← level.settle
  if level.switches.contains switch then throw (.repeated switch)
  return { level with switches := switch :: level.switches }

/-- Adds an operand. -/
def addOperand (level : Level) (grammar : Grammar) (operand : String) :
    Except UsageError Level := do
  let level ← level.settle
  match grammar.operands[level.operands.length]? with
  | none => throw (.unknownArgument operand)
  | some name =>
    if operand.isEmpty then throw (.emptyValue name)
    return { level with operands := operand :: level.operands }

/-- What an argument is, by its first characters. -/
inductive Shape where
  | endOfOptions
  | long (name : String) (value : Option String)
  | short (letter : Char) (rest : Text)
  | operand

/-- The shape of an argument; a dash alone is an operand. -/
def Shape.of (argument : Text) : Shape :=
  match argument with
  | ['-', '-'] => .endOfOptions
  | '-' :: '-' :: rest =>
    match Text.split? ['='] rest with
    | some (name, value) => .long (String.ofList name) (some (String.ofList value))
    | none => .long (String.ofList rest) none
  | '-' :: letter :: rest => .short letter rest
  | _ => .operand

/-- What one argument comes to. -/
inductive Step where
  | next (level : Level)
  | version
  | help

/-- Reads an option or a switch by its name. -/
def readLong (level : Level) (grammar : Grammar) (name : String) (value : Option String) :
    Except UsageError Step := do
  if (grammar.options.map Prod.fst).contains name then return .next (← level.begin name value)
  else if (["version", "help"] ++ grammar.switches).contains name then
    if value.isSome then throw (.unexpectedValue name)
    else if name = "version" then
      let _ ← level.settle
      return .version
    else if name = "help" then
      let _ ← level.settle
      return .help
    else return .next (← level.turnOn name)
  else throw (.unknownArgument ("--" ++ name))

/-- The value directly behind the letter of an option; an equals sign may come between. -/
def attached : Text → Option String
  | [] => none
  | '=' :: value => some (String.ofList value)
  | value => some (String.ofList value)

/-- Reads an option or a switch by its letter. -/
def readShort (level : Level) (grammar : Grammar) (letter : Char) (rest : Text) :
    Except UsageError Step := do
  match letter with
  | 'V' =>
    let _ ← level.settle
    return .version
  | 'h' =>
    let _ ← level.settle
    return .help
  | _ =>
    match grammar.options.find? fun option => option.2 = some letter with
    | some (name, _) => return .next (← level.begin name (attached rest))
    | none => throw (.unknownArgument (String.ofList ['-', letter]))

/-- Reads the arguments behind the end of options: operands alone. -/
def readOperands (level : Level) (grammar : Grammar) : List String → Except UsageError Level
  | [] => .ok level
  | operand :: rest => do (← level.addOperand grammar operand).readOperands grammar rest

/-- Reads a level from its arguments. -/
def read (level : Level) (grammar : Grammar) : List String → Except UsageError LevelEnd
  | [] => .ok (.complete level)
  | argument :: rest =>
    match Shape.of argument.toList, level.pending with
    | .operand, some ⟨option, none⟩ =>
      { level with pending := some ⟨option, some argument⟩ }.read grammar rest
    | .operand, _ =>
      if grammar.hasCommands then .ok (.command level argument rest)
      else do (← level.addOperand grammar argument).read grammar rest
    | _, some ⟨option, none⟩ => .error (.missingValue option)
    | .endOfOptions, _ => do return .complete (← level.readOperands grammar rest)
    | .long name value, _ => do
      match ← level.readLong grammar name value with
      | .next level => level.read grammar rest
      | .version => return .version
      | .help => return .help
    | .short letter tail, _ => do
      match ← level.readShort grammar letter tail with
      | .next level => level.read grammar rest
      | .version => return .version
      | .help => return .help

end Level

end Marginalia.CommandLine
