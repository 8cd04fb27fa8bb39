import Marginalia.Program.Format
import Marginalia.Program.Script.Parser
import Marginalia.Program.Shell.Expansion
import Marginalia.Program.Shell.Test

/-! # The shell's own commands

A few commands are not programs: they change the state of the script itself, such as its variables
and arguments, or end it.  `State.builtin?` runs those that run no other commands.
-/
namespace Marginalia.Program

open Text

/-! ## Signals -/

/-- What `kill` is asked for: to send a signal to programs, or to name the signal of a code. -/
inductive SignalRequest where
  | send (signal : Nat) (targets : List String)
  | name (code : String)

/-- What is told if `kill` is not asked for anything. -/
def killUsage : String :=
  "Usage: kill [-s sigspec | -signum | -sigspec] [pid | job]... or\nkill -l [exitstatus]"

/-- Reads the arguments of `kill`. -/
def SignalRequest.ofArguments (arguments : List String) : Except String SignalRequest :=
  let sendTo : Nat → List String → Except String SignalRequest := fun signal targets =>
    if targets.isEmpty then .error killUsage else .ok (send signal targets)
  match arguments with
  | [] => .error killUsage
  | argument :: rest =>
    match argument.toList with
    | '-' :: letters =>
      match signal? (String.ofList letters), letters, rest with
      | some signal, _, _ => sendTo signal rest
      | none, ['-'], _ => sendTo 15 rest
      | none, ['l'], code :: _ => .ok (.name code)
      | none, ['s'], wanted :: rest =>
        match signal? wanted with
        | some signal => sendTo signal rest
        | none => .error ("invalid signal number or name: " ++ wanted)
      | none, ['s'], [] => .error "No arg for -s option"
      | none, letter :: _, _ => .error ("Illegal option -" ++ letter.toString)
      | none, [], _ => sendTo 15 (argument :: rest)
    | _ => sendTo 15 (argument :: rest)

/-- The name of the signal that a code tells of. -/
def signalName (code : String) : Except String String :=
  match digitsValue? 10 code.toList with
  | none => .error ("Illegal number: " ++ code)
  | some number =>
    match signals.find? fun signal => signal.1 = number || signal.1 + 128 = number with
    | some (_, name) => .ok name
    | none => .error ("invalid signal number or exit status: " ++ code)

/-- The signals that do nothing unless they are caught, and those that stop a program. -/
def harmlessSignals : List Nat :=
  [0, 17, 18, 23, 28]

/-- The signals that make a program wait. -/
def stoppingSignals : List Nat :=
  [19, 20, 21, 22]

/-- The state after the shell has been sent a signal that it does not catch. -/
def State.signalled (state : State) (signal : Nat) : State :=
  if harmlessSignals.contains signal then { state with code := 0 }
  else if stoppingSignals.contains signal then { state with finish := some .never }
  else { state with finish := some (.killed signal) }

/-- The state after a program in the background has been sent a signal. -/
def State.signalJob (state : State) (signal number : Nat) : State :=
  if harmlessSignals.contains signal then state
  else
    { state with
      jobs := state.jobs.map fun job =>
        if job.number = number && state.clock < job.endsAt then
          { job with code := 128 + signal, endsAt := state.clock }
        else job }

/-- The signal that a trap is for; zero is the end of the script. -/
def trapSignal? (name : String) : Option Nat :=
  if name = "EXIT" then some 0 else signal? name

/-- Sets what is run on signals, or removes it. -/
def State.trap (state : State) (arguments : List Bytes) : State :=
  let set := fun (action : Option Bytes) (names : List Bytes) =>
    names.foldl (fun state name =>
      match trapSignal? (textOf name) with
      | none =>
        { state.write .errors (bytes ("trap: " ++ textOf name ++ ": bad trap\n")) with code := 1 }
      | some signal =>
        let others := state.traps.filter fun trap => trap.1 ≠ signal
        { state with
          traps := match action with
            | some action => (signal, Utf8.decodeLossy action) :: others
            | none => others }) { state with code := 0 }
  match if arguments.head? = some (bytes "--") then arguments.drop 1 else arguments with
  | [] => { state with code := 0 }
  | [name] => set none [name]
  | action :: names =>
    if textOf action = "-" then set none names
    else if (digitsValue? 10 (textOf action).toList).isSome then set none (action :: names)
    else set (some action) names

/-! ## Arguments and options -/

/-- The number that an argument writes. -/
def count? (argument : Bytes) : Option Nat :=
  digitsValue? 10 (textOf argument).toList

/-- Applies a number from the first argument, or the given one without arguments. -/
def State.counted (state : State) (line : Nat) (name : String) (standard : Nat)
    (arguments : List Bytes) (apply : Nat → State) : State :=
  match arguments with
  | [] => apply standard
  | argument :: _ =>
    match count? argument with
    | some count => apply count
    | none => state.fail line (name ++ ": Illegal number: " ++ textOf argument)

/-- Removes the first arguments. -/
def State.shift (state : State) (line : Nat) (count : Nat) : State :=
  if state.arguments.length < count then state.fail line "shift: can't shift that many"
  else { state with arguments := state.arguments.drop count, code := 0 }

/-- The options by letters and names. -/
def shellOptions : List (Char × String) :=
  [('e', "errexit"), ('f', "noglob"), ('I', "ignoreeof"), ('i', "interactive"), ('m', "monitor"),
   ('n', "noexec"), ('s', "stdin"), ('x', "xtrace"), ('v', "verbose"), ('V', "vi"),
   ('E', "emacs"), ('C', "noclobber"), ('a', "allexport"), ('b', "notify"), ('u', "nounset")]

/-- Sets an option by its letter; there may be none. -/
def State.withOption? (state : State) (isOn : Bool) (letter : Char) : Option State :=
  match letter with
  | 'e' => some { state with isStrict := isOn }
  | 'u' => some { state with needsValues := isOn }
  | 'x' => some { state with isTraced := isOn }
  | 'n' => some { state with isIdle := isOn }
  | _ => if (shellOptions.map Prod.fst).contains letter then some state else none

/-- Sets options by their letters; the fault is a letter that is none. -/
def State.withOptions (isOn : Bool) (state : State) : Text → Except String State
  | [] => .ok state
  | letter :: letters =>
    match state.withOption? isOn letter with
    | some state => state.withOptions isOn letters
    | none => .error ("Illegal option -" ++ letter.toString)

/-- Sets an option by its name. -/
def State.withNamedOption (isOn : Bool) (state : State) (name : String) : Except String State :=
  match shellOptions.find? fun known => known.2 = name with
  | some (letter, _) => state.withOptions isOn [letter]
  | none => .error ("Illegal option -o " ++ name)

/-- Sets options and arguments. -/
def State.set (state : State) : List Bytes → Except String State
  | [] => .ok state
  | argument :: rest =>
    match (textOf argument).toList with
    | ['-', '-'] => .ok { state with arguments := rest }
    | ['-'] | ['+'] => .ok (if rest.isEmpty then state else { state with arguments := rest })
    | ['-', 'o'] | ['+', 'o'] =>
      match rest with
      | [] => .ok state
      | name :: rest => do
        let state ← state.withNamedOption (argument.head? = some 0x2D) (textOf name)
        state.set rest
    | '-' :: letters => do (← state.withOptions true letters).set rest
    | '+' :: letters => do (← state.withOptions false letters).set rest
    | _ => .ok { state with arguments := argument :: rest }

/-! ## Variables -/

/-- The name and the value in an argument that assigns a variable, or the name alone. -/
def definitionOf (argument : Bytes) : Text × Option Bytes :=
  let name := (Utf8.decodeLossy argument).takeWhile (· ≠ '=')
  let length := (Utf8.encode name).length
  (name, if length < argument.length then some (argument.drop (length + 1)) else none)

/-- Assigns variables as arguments tell. -/
def State.define (state : State) (line : Nat) (command : String) (arguments : List Bytes) : State :=
  arguments.foldl (fun state argument =>
    if state.finish.isSome then state
    else
      let (name, value) := definitionOf argument
      if !isName name then
        state.fail line (command ++ ": " ++ textOf argument ++ ": bad variable name")
      else
        let state := match value with
          | some _ => state.assign line (command ++ ": ") name value
          | none => state
        if command = "readonly" then { state with fixed := name :: state.fixed } else state)
    { state with code := 0 }

/-- Assigns variables that have their values only until the command at work is left. -/
def State.defineLocally (state : State) (line : Nat) (arguments : List Bytes) : State :=
  if state.calls = 0 then state.fail line "local: not in a function"
  else
    let names := arguments.map fun argument => (definitionOf argument).1
    let state := names.foldl (fun state name =>
      { state with shadowed := (name, state.bound? name) :: state.shadowed }) state
    state.define line "local" arguments

/-- Removes variables or named commands. -/
def State.undefine (state : State) (line : Nat) (arguments : List Bytes) : State :=
  let remove := fun (names : List String) =>
    names.foldl (fun state name =>
      if state.finish.isSome then state
      else if !isName name.toList then
        state.fail line ("unset: " ++ name ++ ": bad variable name")
      else state.assign line "unset: " name.toList none) { state with code := 0 }
  match arguments.map textOf with
  | "-f" :: names =>
    { state with
      functions := state.functions.filter fun known => !names.contains (String.ofList known.1)
      code := 0 }
  | "-v" :: names => remove names
  | names => remove names

/-! ## Reading -/

/-- A line at the front of the input, each byte with whether a backslash protects it; whether its
end was found; and what follows.  `front` holds the bytes before, latest first. -/
def inputLine (isRaw : Bool) (front : List (UInt8 × Bool)) :
    Bytes → List (UInt8 × Bool) × Bool × Bytes
  | [] => (front.reverse, false, [])
  | b :: rest =>
    if b = lineFeed then (front.reverse, true, rest)
    else if isByteOf '\\' b && !isRaw then
      match rest with
      | [] => (front.reverse, false, [])
      | c :: rest =>
        if c = lineFeed then inputLine isRaw front rest
        else inputLine isRaw ((c, true) :: front) rest
    else if b = 0 then inputLine isRaw front rest
    else inputLine isRaw ((b, false) :: front) rest

/-- The values that a line gives to so many variables: each but the last takes a field, and the last
takes what is left. -/
def lineValues (separators : Bytes) : Nat → List (UInt8 × Bool) → List Bytes
  | 0, _ => []
  | count + 1, line =>
    let isSeparator := fun entry : UInt8 × Bool => separators.contains entry.1 && !entry.2
    let isBlank := fun entry : UInt8 × Bool =>
      isSeparator entry && (entry.1 = 0x20 || entry.1 = 0x09 || entry.1 = 0x0A)
    let line := line.dropWhile isBlank
    let field := line.takeWhile fun entry => !isSeparator entry
    let rest := (line.drop field.length).dropWhile isBlank
    let rest := match rest with
      | entry :: more => if isSeparator entry then more.dropWhile isBlank else rest
      | [] => []
    if count = 0 then
      if rest.isEmpty then [field.map Prod.fst]
      else [((line.reverse.dropWhile isBlank).reverse).map Prod.fst]
    else field.map Prod.fst :: lineValues separators count rest

/-- Reads a line of the input into variables. -/
def State.read (state : State) (line : Nat) (arguments : List Bytes) : State :=
  let isRaw := arguments.head? = some (bytes "-r")
  match if isRaw then arguments.drop 1 else arguments with
  | [] => state.fail line "read: arg count"
  | names =>
    match names.find? fun name => !isName (Utf8.decodeLossy name) with
    | some name => state.fail line ("read: " ++ textOf name ++ ": bad variable name")
    | none =>
      let (content, isEnded, input) := inputLine isRaw [] state.input
      let values := lineValues state.separators names.length content
      let state := (names.zip values).foldl (fun state (name, value) =>
        if state.finish.isSome then state
        else if state.fixed.contains (Utf8.decodeLossy name) then
          state.report line 2 ("read: " ++ textOf name ++ ": is read only")
        else state.bind (Utf8.decodeLossy name) (some value)) { state with code := 0 }
      { state with input, code := if isEnded then state.code else max state.code 1 }

/-! ## Commands -/

/-- Leaves loops, or goes on with the next round of one. -/
def State.leave (state : State) (make : Nat → Finish) (count : Nat) : State :=
  if state.loops = 0 then { state with code := 0 }
  else { state with code := 0, finish := some (make (min count state.loops)) }

/-- Waits for programs in the background, for all or for those with given numbers. -/
def State.wait (state : State) (line : Nat) (arguments : List Bytes) : State :=
  if arguments.isEmpty then { state with clock := max state.clock (endOf state.jobs), code := 0 }
  else
    arguments.foldl (fun state argument =>
      match count? argument with
      | none => state.report line 2 ("wait: Illegal number: " ++ textOf argument)
      | some number =>
        match state.jobs.find? fun job => job.number = number with
        | none => { state with code := 127 }
        | some job => { state with clock := max state.clock job.endsAt, code := job.code }) state

/-- Goes to another directory, if there is one of that name. -/
def State.enter (state : State) (line : Nat) (arguments : List Bytes) : State :=
  match arguments with
  | [] | [] :: _ => { state with code := 0 }
  | name :: _ =>
    if directories.contains (textOf name) then { state with code := 0 }
    else state.report line 2 ("cd: can't cd to " ++ textOf name)

/-- Runs one of the shell's own commands that run no others, if the name is one of them. -/
def State.builtin? (state : State) (line : Nat) (name : String) (arguments : List Bytes) :
    Option State :=
  match name with
  | ":" => some { state with code := 0 }
  | "exit" => some (state.counted line "exit" state.code arguments fun n => state.exit (n % 256))
  | "return" =>
    some (state.counted line "return" state.code arguments fun n =>
      { state with code := n, finish := some .returned })
  | "break" => some (state.counted line "break" 1 arguments fun n => state.leave .left n)
  | "continue" => some (state.counted line "continue" 1 arguments fun n => state.leave .skipped n)
  | "shift" => some (state.counted line "shift" 1 arguments fun n => state.shift line n)
  | "set" =>
    match State.set { state with code := 0 } arguments with
    | .ok state => some state
    | .error fault => some (state.fail line ("set: " ++ fault))
  | "export" | "readonly" => some (state.define line name arguments)
  | "local" => some (state.defineLocally line arguments)
  | "unset" => some (state.undefine line arguments)
  | "read" => some (state.read line arguments)
  | "trap" => some (state.trap arguments)
  | "wait" => some (state.wait line arguments)
  | "cd" => some (state.enter line arguments)
  | "hash" | "alias" | "jobs" | "ulimit" => some { state with code := 0 }
  | "." =>
    match arguments with
    | [] => some { state with code := 0 }
    | name :: _ =>
      if name.contains 0x2F then
        some (state.fail line (".: cannot open " ++ textOf name ++ ": No such file"))
      else some (state.fail line (".: " ++ textOf name ++ ": not found"))
  | "test" | "[" =>
    match test name (arguments.map textOf) with
    | .ok value => some { state with code := if value then 0 else 1 }
    | .error fault => some (state.report line 2 (fault.message name))
  | "echo" => some (state.take (echoAs true arguments state.input))
  | "printf" =>
    let label := textOf state.zero ++ ": " ++ String.ofList (decimal line) ++ ": printf"
    some (state.take (printfAs label arguments state.input))
  | _ => none

end Marginalia.Program
