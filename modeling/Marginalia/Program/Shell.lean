import Marginalia.Program.Script.Checking
import Marginalia.Program.Shell.Runner

/-! # The shell

The program `sh` runs a script, which its arguments give or which is its input.

`Runner.ofDepth` bounds the nesting, since only a script that calls itself without end goes deeper.
-/
namespace Marginalia.Program

open Text

namespace Runner

/-- Runs the text of a script that begins in the given line; the scripts within its words are known
to be scripts if `isChecked`. -/
def runText (runner : Runner) (isChecked : Bool) (line : Nat) (text : Text) (state : State) :
    State :=
  let (script, error) := Script.ofText isChecked line text
  runner.runEntries (fun state =>
    match error with
    | some error => state.complainFatally error.line error.message
    | none => state) script state

end Runner

/-! ## Arguments -/

/-- What the arguments of the shell ask for: whether they give the script, and the operands. -/
structure ShellRequest where
  isGiven : Bool
  operands : List Bytes

/-- Sets options by the letters of an argument, of which one tells that a script is given; that
counts behind a dash. -/
def lettersOf (isOn : Bool) (letters : Text) (state : State) : Except String (Bool × State) := do
  let isGiven := isOn && letters.contains 'c'
  return (isGiven, ← state.withOptions isOn (letters.filter fun letter => !(isOn && letter = 'c')))

/-- Reads the options in front of the operands into the state; `isGiven` tells whether they have
given the script so far. -/
def ShellRequest.ofArguments (isGiven : Bool) (state : State) :
    List Bytes → Except String (ShellRequest × State)
  | [] => .ok (⟨isGiven, []⟩, state)
  | [option] =>
    match (textOf option).toList with
    | '-' :: letter :: letters => do
      let (isMore, state) ← lettersOf true (letter :: letters) state
      return (⟨isGiven || isMore, []⟩, state)
    | ['-'] => .ok (⟨isGiven, []⟩, state)
    | _ => .ok (⟨isGiven, [option]⟩, state)
  | option :: argument :: rest =>
    match (textOf option).toList with
    | ['-', '-'] | ['-'] => .ok (⟨isGiven, argument :: rest⟩, state)
    | ['-', 'o'] | ['+', 'o'] => do
      let state ← state.withNamedOption (option.head? = some 0x2D) (textOf argument)
      ofArguments isGiven state rest
    | '-' :: letter :: letters => do
      let (isMore, state) ← lettersOf true (letter :: letters) state
      ofArguments (isGiven || isMore) state (argument :: rest)
    | '+' :: letter :: letters => do
      let (_, state) ← lettersOf false (letter :: letters) state
      ofArguments isGiven state (argument :: rest)
    | _ => .ok (⟨isGiven, option :: argument :: rest⟩, state)

/-- Runs the script that the arguments tell. -/
def Runner.runShell (runner : Runner) : Run := fun arguments input =>
  let name := bytes "sh"
  let run := fun (script : Bytes) (state : State) =>
    ((runner.runText false 1 (Utf8.decodeLossy script) state).atExit runner.nested).outcome
  match ShellRequest.ofArguments false (.start name [] input) arguments with
  | .error fault => .failure 2 ("sh: 0: " ++ fault) input
  | .ok (request, state) =>
    match request.isGiven, request.operands with
    | true, [] => .failure 2 "sh: 0: -c requires an argument" input
    | true, [script] => run script state
    | true, script :: zero :: arguments => run script { state with zero, arguments }
    | false, operands =>
      if operands.isEmpty || arguments.contains (bytes "-s") then
        run input { state with arguments := operands, input := [] }
      else
        .failure 2 ("sh: 0: cannot open " ++ textOf (operands.headD []) ++ ": No such file") input

/-! ## Commands -/

/-- Runs a command whose parts are run by `runner`. -/
def Command.runBy (runner : Runner) (command : Command) (state : State) : State :=
  match command with
  | .simple line assignments words redirections =>
    let (fields, state) := expand runner.nested line { state with outputCode := 0 } words
    if state.finish.isSome then state
    else
      let isVital := fields.head?.any fun name => specialCommands.contains (textOf name)
      let isLasting := fields.map textOf = ["exec"]
      redirected runner.nested line isVital isLasting redirections
        (runner.callAssigned line assignments fields) state
  | .group line true body redirections =>
    redirected runner.nested line false false redirections (fun state =>
      let inner := (runner.runBody body state.inner).atExit runner.nested
      (state.resume { inner with code := inner.finalCode }).writeAll inner.written) state
  | .group line false body redirections =>
    redirected runner.nested line false false redirections (runner.runBody body) state
  | .choice line branches otherwise redirections =>
    redirected runner.nested line false false redirections
      (runner.runChoice otherwise branches) state
  | .selection line word branches redirections =>
    redirected runner.nested line false false redirections (fun state =>
      let (text, state) := word.expandWhole runner.nested line state
      if state.finish.isSome then state else runner.runSelection line text branches state) state
  | .loop line isUntil condition body redirections =>
    redirected runner.nested line false false redirections (fun state =>
      runner.runLoop isUntil condition body 0 0 state
        (Runner.greatestRounds + state.input.length)) state
  | .each line name words body redirections =>
    redirected runner.nested line false false redirections (fun state =>
      let (values, state) := match words with
        | some words => expand runner.nested line state words
        | none => (state.arguments, state)
      if state.finish.isSome then state
      else
        runner.runEach line name body values
          (if values.isEmpty then { state with code := 0 } else state)) state
  | .definition name body =>
    { state with functions := (name, body) :: state.functions, code := 0 }

/-- What becomes of a run that is nested too deep: it is killed for want of memory. -/
def State.lost (state : State) : State :=
  { state with finish := some (.killed 11) }

/-- Runs commands that are nested at most `depth` deep. -/
def Runner.ofDepth : Nat → Runner
  | 0 => ⟨fun _ => State.lost, fun _ _ _ => State.lost,
      fun _ input => { Outcome.success [] input with ending := .killed 11 }⟩
  | depth + 1 =>
    let runner := ofDepth depth
    ⟨Command.runBy runner, runner.runText, runner.runShell⟩

/-- Commands are nested at most this deep. -/
def greatestNesting : Nat := 10000

/-- Runs the script that the arguments tell. -/
def sh : Run :=
  (Runner.ofDepth greatestNesting).runShell

/-- The program with the given name, the shell among them. -/
def ofName? (name : String) : Option Run :=
  if programName name = "sh" then some sh else program? name

end Marginalia.Program
