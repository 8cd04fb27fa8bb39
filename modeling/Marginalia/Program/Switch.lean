import Marginalia.Program.Basic

/-! # Options

The arguments of a program are options and operands.  An option is a letter behind a dash, or a name
behind two; several letters may share a dash, and a name may be cut short where that leaves no
doubt.  Some options take a value: the rest of the argument, or else the next argument.

`readArguments` reads arguments by the options that a program knows, and gives their meanings in
order.
-/
namespace Marginalia.Program

open Text

/-- What an option means, by itself or with its value. -/
inductive Meaning (α : Type) where
  | plain (meaning : α)
  | valued (read : Bytes → Except String α)

/-- An option, by its letters and its names. -/
structure Switch (α : Type) where
  letters : List Char
  names : List String
  meaning : Meaning α

/-- Why arguments make no sense. -/
inductive ArgumentFault where
  | unknownLetter (letter : UInt8)
  | missingValue (letter : UInt8)
  | unknownName (argument : Bytes)
  | doubtfulName (argument : Bytes) (names : List String)
  | missingNamedValue (name : String)
  | unwantedValue (name : String)
  | wrongValue (reason : String)

/-- The fault in words. -/
def ArgumentFault.message : ArgumentFault → String
  | unknownLetter letter => "invalid option -- '" ++ textOf [letter] ++ "'"
  | missingValue letter => "option requires an argument -- '" ++ textOf [letter] ++ "'"
  | unknownName argument => "unrecognized option '" ++ textOf argument ++ "'"
  | doubtfulName argument names =>
    "option '" ++ textOf argument ++ "' is ambiguous; possibilities:" ++
      String.join (names.map fun name => " '--" ++ name ++ "'")
  | missingNamedValue name => "option '--" ++ name ++ "' requires an argument"
  | unwantedValue name => "option '--" ++ name ++ "' doesn't allow an argument"
  | wrongValue reason => reason

/-- A message about how the program of the given name is to be called. -/
def callMessage (program message : String) : String :=
  program ++ ": " ++ message ++ "\nTry '" ++ program ++ " --help' for more information."

/-- What the program of the given name tells of a fault. -/
def ArgumentFault.report (program : String) (fault : ArgumentFault) : String :=
  match fault with
  | wrongValue reason => program ++ ": " ++ reason
  | fault => callMessage program fault.message

/-- The meaning of an option with its value. -/
def readValue {α : Type} (read : Bytes → Except String α) (value : Bytes) :
    Except ArgumentFault α :=
  (read value).mapError .wrongValue

/-- Reads the letters that share a dash; `rest` are the arguments behind them. -/
def readLetters {α : Type} (switches : List (Switch α)) (rest : List Bytes) :
    Bytes → Except ArgumentFault (List α × List Bytes)
  | [] => .ok ([], rest)
  | letter :: letters => do
    let isKnown := fun known : Char => known.toUInt8 = letter && letter < 0x80
    match switches.find? fun switch => switch.letters.any isKnown with
    | none => throw (.unknownLetter letter)
    | some switch =>
      match switch.meaning with
      | .plain meaning =>
        let (meanings, rest) ← readLetters switches rest letters
        return (meaning :: meanings, rest)
      | .valued read =>
        match letters, rest with
        | [], [] => throw (.missingValue letter)
        | [], value :: rest => return ([← readValue read value], rest)
        | _, _ => return ([← readValue read letters], rest)

/-- The options that a name stands for, each with its full name: the one with that name, or else all
whose names begin so. -/
def named {α : Type} (switches : List (Switch α)) (name : String) : List (String × Switch α) :=
  let all := switches.flatMap fun switch => switch.names.map fun name => (name, switch)
  match all.find? fun known => known.1 = name with
  | some known => [known]
  | none => all.filter fun known => known.1.startsWith name

/-- Reads the name behind two dashes, which a value may follow; `rest` are the arguments behind
it. -/
def readName {α : Type} (switches : List (Switch α)) (rest : List Bytes) (argument : Bytes) :
    Except ArgumentFault (α × List Bytes) := do
  let content := argument.drop 2
  let name := content.takeWhile (· ≠ 0x3D)
  let value? := if name.length < content.length then some (content.drop (name.length + 1)) else none
  match named switches (textOf name) with
  | [] => throw (.unknownName argument)
  | [(name, switch)] =>
    match switch.meaning, value?, rest with
    | .plain meaning, none, rest => return (meaning, rest)
    | .plain _, some _, _ => throw (.unwantedValue name)
    | .valued read, some value, rest => return (← readValue read value, rest)
    | .valued read, none, value :: rest => return (← readValue read value, rest)
    | .valued _, none, [] => throw (.missingNamedValue name)
  | several => throw (.doubtfulName argument (several.map Prod.fst))

/-- Reads arguments, at most `fuel` of them: the meanings of the options, and the operands.  Options
may stand behind operands if `isMixed`. -/
def readArgumentsFrom {α : Type} (switches : List (Switch α)) (isMixed : Bool) :
    Nat → List Bytes → Except ArgumentFault (List α × List Bytes)
  | 0, rest => .ok ([], rest)
  | _, [] => .ok ([], [])
  | fuel + 1, argument :: rest => do
    match argument with
    | [0x2D, 0x2D] => return ([], rest)
    | 0x2D :: 0x2D :: _ =>
      let (meaning, rest) ← readName switches rest argument
      let (meanings, operands) ← readArgumentsFrom switches isMixed fuel rest
      return (meaning :: meanings, operands)
    | 0x2D :: b :: letters =>
      let (before, rest) ← readLetters switches rest (b :: letters)
      let (meanings, operands) ← readArgumentsFrom switches isMixed fuel rest
      return (before ++ meanings, operands)
    | _ =>
      if isMixed then
        let (meanings, operands) ← readArgumentsFrom switches isMixed fuel rest
        return (meanings, argument :: operands)
      else return ([], argument :: rest)

/-- Reads arguments: the meanings of the options, and the operands. -/
def readArguments {α : Type} (switches : List (Switch α)) (isMixed : Bool)
    (arguments : List Bytes) : Except ArgumentFault (List α × List Bytes) :=
  readArgumentsFrom switches isMixed arguments.length arguments

/-- What the options of a program make of the usual, and the operands. -/
def settled {α : Type} (switches : List (Switch (α → α))) (isMixed : Bool) (usual : α)
    (arguments : List Bytes) : Except ArgumentFault (α × List Bytes) := do
  let (changes, operands) ← readArguments switches isMixed arguments
  return (changes.foldl (fun settings change => change settings) usual, operands)

end Marginalia.Program
