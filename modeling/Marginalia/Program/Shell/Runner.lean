import Marginalia.Program.Copying
import Marginalia.Program.Counting
import Marginalia.Program.Cutting
import Marginalia.Program.Editing
import Marginalia.Program.Shell.Builtin
import Marginalia.Program.Transliteration
import Marginalia.Program.Waiting

/-! # Running commands

A simple command runs a program or one of the shell's own commands, and the commands of a pipeline
run side by side, each on the output of the one before.  Choices and loops run scripts by the code
of others.  How the commands within commands are run is left open here: a `Runner` tells it.

`greatestRounds` bounds the rounds of a loop: one that goes beyond is held never to end.  A loop
that comes back to a state it was in never ends either, and most endless loops are found by that.
-/
namespace Marginalia.Program

open Text

/-! ## Simple commands -/

/-- The programs that are known by name, but for the shell. -/
def programs : List (String × Run) :=
  [("cat", cat), ("head", head), ("wc", wc), ("sleep", sleep), ("tr", tr), ("sed", sed),
   ("printf", printfAs "printf"), ("echo", echoAs false),
   ("true", fun _ input => .success [] input),
   ("false", fun _ input => ⟨[], input, .exited 1, some 0⟩)]

/-- The name of a program without the directory of programs before it. -/
def programName (name : String) : String :=
  match (["/bin/", "/usr/bin/"].filterMap fun directory =>
      directory.toList.isPrefixOf? name.toList).head? with
  | some name => String.ofList name
  | none => name

/-- The program with the given name. -/
def program? (name : String) : Option Run :=
  (programs.find? fun program => program.1 = programName name).map Prod.snd

/-- Whether an entry with the condition is run after a command with the code. -/
def Condition.isMet (code : Nat) : Condition → Bool
  | always => true
  | onSuccess => code = 0
  | onFailure => code ≠ 0

/-- How commands are run, and the scripts within their words. -/
structure Runner where
  run : Command → State → State
  nested : Nested
  /-- How the shell itself is run as a program. -/
  shell : Run

namespace Runner

/-- Whether a name is that of a file that is no program. -/
def isNoProgram (name : String) : Bool :=
  directories.contains name || ["/etc/passwd", "/dev/null", "/dev/zero"].contains name

/-- Runs the program with the given name; `speaker` stands in front of what is told if there is
none. -/
def execute (runner : Runner) (line : Nat) (speaker : String) (name : Bytes)
    (arguments : List Bytes) (state : State) : State :=
  if programName (textOf name) = "sh" then state.take (runner.shell arguments state.input)
  else
    match program? (textOf name) with
    | some run => state.take (run arguments state.input)
    | none =>
      if name.contains 0x2F && isNoProgram (textOf name) then
        state.report line 126 (speaker ++ textOf name ++ ": Permission denied")
      else state.report line 127 (speaker ++ textOf name ++ ": not found")

/-- At most so many commands that have names call each other. -/
def greatestCalls : Nat := 1000

/-- Runs a command that has a name, with arguments of its own. -/
def callFunction (runner : Runner) (line : Nat) (body : Command) (arguments : List Bytes)
    (state : State) : State :=
  if greatestCalls ≤ state.calls then
    state.complainFatally line ("Maximum function recursion depth (" ++
      String.ofList (decimal greatestCalls) ++ ") reached")
  else
    let after := runner.run body
      { state with arguments, shadowed := [], loops := 0, calls := state.calls + 1 }
    let restored := after.shadowed.foldl (fun state (name, value) => state.bind name value) after
    { restored with
      arguments := state.arguments
      shadowed := state.shadowed
      loops := state.loops
      calls := state.calls
      finish := match after.finish with
        | some .returned => none
        | finish => finish }

/-- Sends a signal to a program by its number, which may be the shell itself. -/
def sendSignal (runner : Runner) (line signal : Nat) (state : State) (target : String) : State :=
  if state.finish.isSome then state
  else
    match digitsValue? 10 target.toList with
    | none => state.report line 2 ("kill: Illegal number: " ++ target)
    | some number =>
      if number = shellNumber then
        match if signal = 9 then none else state.traps.lookup signal with
        | some action => { runner.nested false 1 action { state with code := 0 } with code := 0 }
        | none => { state.signalled signal with code := state.code }
      else if state.jobs.any fun job => job.number = number then state.signalJob signal number
      else state.report line 1 "kill: No such process\n"

/-- Sends signals as the arguments tell, or names one. -/
def kill (runner : Runner) (state : State) (line : Nat) (arguments : List Bytes) : State :=
  match SignalRequest.ofArguments (arguments.map textOf) with
  | .error fault => state.report line 2 ("kill: " ++ fault)
  | .ok (.send signal targets) =>
    targets.foldl (runner.sendSignal line signal) { state with code := 0 }
  | .ok (.name code) =>
    match signalName code with
    | .ok name => { state.write .output (bytes (name ++ "\n")) with code := 0 }
    | .error fault => state.report line 2 ("kill: " ++ fault)

/-- The names of the shell's own commands. -/
def ownCommands : List String :=
  specialCommands ++
    ["[", "alias", "cd", "command", "echo", "false", "hash", "jobs", "kill", "local", "printf",
     "read", "test", "true", "ulimit", "wait"]

/-- Tells what names stand for: themselves, if they belong to the shell, or else a file. -/
def locate (state : State) (names : List Bytes) : State :=
  names.foldl (fun state name =>
    let text := textOf name
    let place? :=
      if reservedWords.contains text || (state.functions.lookup text.toList).isSome ||
          ownCommands.contains text then some text
      else if (program? text).isNone && programName text ≠ "sh" then none
      else if name.contains 0x2F then some text
      else some ("/usr/bin/" ++ text)
    match place? with
    | some place => { state.write .output (bytes (place ++ "\n")) with code := 0 }
    | none => { state with code := 127 }) state

/-- Runs the command whose name and arguments the fields are; `line` is where it stands, and named
commands count unless `isPlain`. -/
def call (runner : Runner) (line : Nat) (isPlain : Bool) (state : State) (fields : List Bytes) :
    State :=
  match fields with
  | [] => state
  | name :: arguments =>
    let program := fun _ : Unit =>
      match state.builtin? line (textOf name) arguments with
      | some state => state
      | none =>
        match textOf name with
        | "eval" =>
          let text := Utf8.decodeLossy (arguments.intersperse [0x20]).flatten
          let after := runner.nested false 1 text
            { state with
              code := if arguments.isEmpty then 0 else state.code
              speaker := "eval: " }
          { after with speaker := state.speaker }
        | "exec" =>
          match arguments with
          | [] => { state with code := 0 }
          | name :: arguments =>
            let state := runner.execute line "exec: " name arguments state
            match state.finish with
            | some _ => state
            | none => { state.exit state.code with traps := [] }
        | "kill" => runner.kill state line arguments
        | _ => runner.execute line (if isPlain then "" else state.speaker) name arguments state
    match if isPlain then none else state.functions.lookup (Utf8.decodeLossy name) with
    | some body =>
      if specialCommands.contains (textOf name) then program ()
      else runner.callFunction line body arguments state
    | none => program ()

/-- Runs the command behind `command`, where only the shell's own commands and programs count; or
tells what names stand for. -/
def callPlain (runner : Runner) (line : Nat) (state : State) (fields : List Bytes) : State :=
  match fields with
  | [] => { state with code := 0 }
  | option :: rest =>
    match textOf option with
    | "--" | "-p" => runner.call line true { state with code := 0 } rest
    | "-v" => locate { state with code := 0 } rest
    | text =>
      match text.toList with
      | '-' :: letter :: _ =>
        state.report line 2 ("command: Illegal option -" ++ letter.toString)
      | _ => runner.call line true state fields

/-- Tells a command before it is run. -/
def trace (state : State) (assignments : List (Text × Bytes)) (fields : List Bytes) : State :=
  let assigned := assignments.map fun (name, value) => Utf8.encode name ++ [0x3D] ++ value
  let content := ((assigned ++ fields).intersperse [0x20]).flatten
  state.write .errors (bytes "+ " ++ content ++ [lineFeed])

/-- Runs a simple command; what is assigned in front of it lasts as long as it does, unless it is
one of the commands that belong to the script itself. -/
def callAssigned (runner : Runner) (line : Nat) (assignments : List (Text × Word))
    (fields : List Bytes) (state : State) : State :=
  let (values, assigned) := assignments.foldl (fun (values, state) (name, word) =>
    if state.finish.isSome then (values, state)
    else
      let (value, state) := word.expandWhole runner.nested line state
      ((name, value) :: values, state.assign line state.speaker name (some value)))
    (([] : List (Text × Bytes)), state)
  let assigned := if assigned.isTraced && assigned.finish.isNone then
      trace assigned values.reverse fields
    else assigned
  match fields with
  | [] =>
    if assigned.finish.isSome then assigned else { assigned with code := assigned.outputCode }
  | name :: arguments =>
    if assigned.finish.isSome then assigned
    else
      let after := if textOf name = "command" then runner.callPlain line assigned arguments
        else runner.call line false assigned fields
      if specialCommands.contains (textOf name) then after
      else
        assignments.foldl (fun after (name, _) => after.bind name (state.bound? name)) after

/-! ## Pipelines -/

/-- Runs the commands of a pipeline side by side.  A command whose output is not read, and is more
than a pipe holds, cannot have read its own input. -/
def runStages (runner : Runner) (stages : List Command) (state : State) : State :=
  match stages with
  | [] => state
  | [command] => runner.run command state
  | first :: others =>
    let start := state.inner
    let afterFirst := (runner.run first start).atExit runner.nested
    let last := others.foldl (fun (before : State × Nat × Bytes) command =>
      let (previous, clock, input) := before
      let after := runner.run command
        { start with input := previous.writtenTo .output, jobs := previous.jobs }
      let after := after.atExit runner.nested
      let errors := previous.written.filter fun written => written.1 ≠ .output
      let input := if pipeCapacity < after.input.length then start.input else input
      ({ after with written := after.written ++ errors
                    finish := match previous.finish, after.finish with
                      | some (.killed signal), _ => some (.killed signal)
                      | some .never, finish =>
                        if pipeCapacity < after.input.length then finish else some .never
                      | _, finish => finish },
       max clock after.clock, input)) (afterFirst, afterFirst.clock, afterFirst.input)
    let (after, clock, input) := last
    (state.resume { after with clock, input, code := after.finalCode }).writeAll after.written

/-- Whether a command in the background writes to none of the channels of the script. -/
def isDetached (runner : Runner) (state : State) (stages : List Command) : Bool :=
  stages.all fun command =>
    let after := command.redirections.foldl (fun (after : Option State) redirection =>
      let (target, _) := redirection.target.expandWhole runner.nested 1 state
      after.bind fun after => (after.redirect redirection target).toOption) (some state)
    after.any fun after =>
      [1, 2].all fun descriptor => match after.target descriptor with
        | .channel _ => false
        | _ => true

/-- Runs a pipeline whose condition is met. -/
def runEntry (runner : Runner) (state : State) (entry : Entry Command) : State :=
  if entry.isBackground then
    let after := runner.runStages entry.stages { state.inner with input := [] }
    let after := after.atExit runner.nested
    let job : Job :=
      ⟨shellNumber + 1 + state.jobs.length, after.finalCode, max after.clock (endOf after.jobs),
        !runner.isDetached state entry.stages⟩
    { state.writeAll after.written with
      code := 0
      jobs := job :: state.jobs
      finish := match after.finish with
        | some .never => some .never
        | _ => state.finish }
  else
    let state := runner.runStages entry.stages state
    if entry.isNegated && state.finish.isNone then
      { state with code := if state.code = 0 then 1 else 0 }
    else state

/-! ## Scripts -/

/-- Runs entries one after another, and then what is to come at the end of them. -/
def runEntries (runner : Runner) (atEnd : State → State) : List (Entry Command) → State → State
  | [], state => if state.finish.isSome then state else atEnd state
  | entry :: entries, state =>
    if state.finish.isSome then state
    else if state.isIdle then runner.runEntries atEnd entries { state with code := 0 }
    else if !entry.condition.isMet state.code then runner.runEntries atEnd entries state
    else
      let isTested := state.isTested || entry.isNegated ||
        entries.head?.any fun next => match next.condition with
          | .always => false
          | _ => true
      let after := runner.runEntry { state with isTested } entry
      let after := { after with isTested := state.isTested }
      let isFailure := state.isStrict && !isTested && after.code ≠ 0 && after.finish.isNone
      runner.runEntries atEnd entries (if isFailure then after.exit after.code else after)

/-- Runs a script within a command. -/
def runBody (runner : Runner) (script : Script) (state : State) : State :=
  runner.runEntries id script state

/-- Runs a script whose code decides what comes next. -/
def runCondition (runner : Runner) (script : Script) (state : State) : State :=
  { runner.runBody script { state with isTested := true } with isTested := state.isTested }

/-! ## Choices and loops -/

/-- Runs the script of the first condition that succeeds. -/
def runChoice (runner : Runner) (otherwise : Script) : List (Script × Script) → State → State
  | [], state =>
    if otherwise.isEmpty then { state with code := 0 } else runner.runBody otherwise state
  | (condition, body) :: branches, state =>
    let tested := runner.runCondition condition state
    if tested.finish.isSome then tested
    else if tested.code = 0 then runner.runBody body tested
    else runner.runChoice otherwise branches tested

/-- Runs the script of the first pattern that matches a text. -/
def runSelection (runner : Runner) (line : Nat) (text : Bytes) :
    List (List Word × Script) → State → State
  | [], state => { state with code := 0 }
  | (patterns, body) :: branches, state =>
    let (isFound, state) := patterns.foldl (fun (isFound, state) word =>
      if isFound then (isFound, state)
      else
        let (glob, state) := word.expandGlob runner.nested line state
        (glob.isMatch text, state)) (false, state)
    if isFound then if body.isEmpty then { state with code := 0 } else runner.runBody body state
    else runner.runSelection line text branches state

/-- The state after a round of a loop, and whether the loop goes on. -/
def afterRound (state : State) : Bool × State :=
  match state.finish with
  | none => (true, state)
  | some (.left loops) =>
    (false, { state with finish := if loops ≤ 1 then none else some (.left (loops - 1)) })
  | some (.skipped loops) =>
    if loops ≤ 1 then (true, { state with finish := none })
    else (false, { state with finish := some (.skipped (loops - 1)) })
  | some _ => (false, state)

/-- Runs a script as a part of a loop. -/
def runRound (run : State → State) (state : State) : Bool × State :=
  afterRound { run { state with loops := state.loops + 1 } with loops := state.loops }

/-- The greatest number of rounds of a loop that ends, but for those that read input. -/
def greatestRounds : Nat := 1 <<< 17

/-- Whether the states before and after a round are compared: that is in rounds that grow ever
rarer, since a loop that comes back to its state once does so always. -/
def isChecked (round : Nat) : Bool :=
  round &&& (round - 1) = 0

/-- Runs a loop as long as its condition succeeds, or else fails, with at most so many rounds;
`round` have been run, and `last` is the code of the latest. -/
def runLoop (runner : Runner) (isUntil : Bool) (condition body : Script) (round last : Nat)
    (state : State) : Nat → State
  | 0 => { state with finish := some .never }
  | rounds + 1 =>
    let (goesOn, tested) := runRound (runner.runCondition condition) state
    if !goesOn then tested
    else if (tested.code = 0) = isUntil then { tested with code := last }
    else
      let (goesOn, after) := runRound (runner.runBody body) tested
      if !goesOn then after
      else if isChecked round && state.isRepeatedBy after then state.forever after
      else runner.runLoop isUntil condition body (round + 1) after.code after rounds

/-- Runs a loop over the values of a variable. -/
def runEach (runner : Runner) (line : Nat) (name : Text) (body : Script) :
    List Bytes → State → State
  | [], state => state
  | value :: values, state =>
    let assigned := state.assign line state.speaker name (some value)
    if assigned.finish.isSome then assigned
    else
      let (goesOn, after) := runRound (runner.runBody body) assigned
      if goesOn then runner.runEach line name body values after else after

end Runner

end Marginalia.Program
