import Marginalia.Program.Script.Basic
import Marginalia.Program.Source

/-! # The state of a script

A script that is being run has a state: the input that is left, what was written, the variables, the
time, and how the script has ended if it has.  A script within a script begins with the state of the
outer one (`State.inner`), which takes over what the inner one leaves (`State.resume`).
-/
namespace Marginalia.Program

open Text

/-- Why the commands that follow are not run. -/
inductive Finish where
  | exited (code : Nat)
  | killed (signal : Nat)
  | never
  /-- The given number of loops is left. -/
  | left (loops : Nat)
  /-- The given number of loops is left but for the last, which goes on. -/
  | skipped (loops : Nat)
  /-- The command at work, which was called by its name, is left. -/
  | returned

/-- A program in the background: its number, the code with which it ends, and when; and whether it
keeps the channels of the script open until then. -/
structure Job where
  number : Nat
  code : Nat
  endsAt : Nat
  isAttached : Bool

/-- Where a descriptor leads. -/
inductive Target where
  | channel (channel : Channel)
  | nowhere
  | closed
  deriving DecidableEq

/-- The state of a script that is being run. -/
structure State where
  /-- The name of the script. -/
  zero : Bytes
  arguments : List Bytes
  /-- The variables with their values. -/
  bound : List (Text × Bytes)
  /-- The variables that get their values back, or none, after the command that is at work. -/
  shadowed : List (Text × Option Bytes)
  /-- The commands that have names, latest first. -/
  functions : List (Text × Command)
  /-- How many commands that have names are at work, one called by the other. -/
  calls : Nat
  /-- What is run on signals, latest first; the end of the script counts as signal zero. -/
  traps : List (Nat × Text)
  /-- The descriptors that are open from outside, besides the usual ones. -/
  opened : List Nat
  /-- Where descriptors lead that have been redirected. -/
  targets : List (Nat × Target)
  /-- How many loops are at work. -/
  loops : Nat
  /-- Whether a failure ends the script. -/
  isStrict : Bool
  /-- Whether the failure of the command at work is looked at, and so does not end the script. -/
  isTested : Bool
  /-- Whether a variable without a value is a fault. -/
  needsValues : Bool
  /-- Whether commands are told before they are run. -/
  isTraced : Bool
  /-- Whether commands are read but not run. -/
  isIdle : Bool
  /-- The variables whose values cannot be changed. -/
  fixed : List Text
  /-- What stands in front of a message about no command of the shell's own. -/
  speaker : String
  /-- The programs in the background by their numbers, latest first. -/
  jobs : List Job
  /-- The code of the last command. -/
  code : Nat
  /-- The code of the last script whose output has become a part of the command at work. -/
  outputCode : Nat
  input : Bytes
  /-- What was written, latest first. -/
  written : List (Channel × Bytes)
  /-- The time that has passed, in milliseconds. -/
  clock : Nat
  finish : Option Finish

/-- The shell's number among the programs that run. -/
def shellNumber : Nat := 2

/-- When the last of some programs ends. -/
def endOf (jobs : List Job) : Nat :=
  jobs.foldl (fun last job => max last job.endsAt) 0

namespace State

/-- The state at the start of a script. -/
def start (zero : Bytes) (arguments : List Bytes) (input : Bytes) : State :=
  { zero, arguments, bound := [], shadowed := [], functions := [], calls := 0, traps := []
    opened := [], targets := [], loops := 0, isStrict := false
    isTested := false, needsValues := false, isTraced := false, isIdle := false, fixed := []
    speaker := "", jobs := [], code := 0, outputCode := 0, input, written := [], clock := 0
    finish := none }

/-! ## Descriptors -/

/-- The channel of a descriptor. -/
def channelOf (descriptor : Nat) : Channel :=
  if descriptor = 1 then .output else if descriptor = 2 then .errors else .other descriptor

/-- The descriptor of a channel. -/
def descriptorOf : Channel → Nat
  | .output => 1
  | .errors => 2
  | .other descriptor => descriptor

/-- Where a descriptor leads; one that has not been redirected is open if it is a usual one, or one
that is open from outside. -/
def target (state : State) (descriptor : Nat) : Target :=
  let isOpen := descriptor ≤ 2 || state.opened.contains descriptor
  (state.targets.lookup descriptor).getD
    (if isOpen then .channel (channelOf descriptor) else .closed)

/-- The state with another target of a descriptor. -/
def withTarget (state : State) (descriptor : Nat) (target : Target) : State :=
  let others := state.targets.filter fun known => known.1 ≠ descriptor
  { state with targets := (descriptor, target) :: others }

/-! ## Ending and writing -/

/-- Writes to a channel, which is that of a descriptor and so may lead elsewhere. -/
def write (state : State) (channel : Channel) (content : Bytes) : State :=
  match state.target (descriptorOf channel) with
  | .channel channel => { state with written := (channel, content) :: state.written }
  | _ => state

/-- Writes what another has written, latest first. -/
def writeAll (state : State) (written : List (Channel × Bytes)) : State :=
  written.foldr (fun (channel, content) state => state.write channel content) state

/-- Tells an error in a line, and sets the code. -/
def report (state : State) (line code : Nat) (message : String) : State :=
  { state.write .errors
      (state.zero ++ bytes (": " ++ String.ofList (decimal line) ++ ": " ++ message ++ "\n")) with
    code }

/-- Ends the script with a code. -/
def exit (state : State) (code : Nat) : State :=
  { state with code, finish := some (.exited code) }

/-- Tells an error of no command of the shell's own. -/
def complain (state : State) (line code : Nat) (message : String) : State :=
  state.report line code (state.speaker ++ message)

/-- Tells an error in a line that ends the script. -/
def fail (state : State) (line : Nat) (message : String) : State :=
  (state.report line 2 message).exit 2

/-- What a program did becomes part of the state. -/
def take (state : State) (outcome : Outcome) : State :=
  let state := { state.writeAll outcome.written.reverse with
    input := outcome.unread
    code := outcome.ending.code }
  match outcome.duration with
  | some duration => { state with clock := state.clock + duration }
  | none => { state with finish := some .never }

/-- Tells an error of no command of the shell's own that ends the script. -/
def complainFatally (state : State) (line : Nat) (message : String) : State :=
  state.fail line (state.speaker ++ message)

/-! ## Variables -/

/-- The value of a variable. -/
def bound? (state : State) (name : Text) : Option Bytes :=
  state.bound.lookup name

/-- The state with a value of a variable, or without one. -/
def bind (state : State) (name : Text) (value : Option Bytes) : State :=
  let others := state.bound.filter fun known => known.1 ≠ name
  { state with
    bound := match value with
      | some value => (name, value) :: others
      | none => others }

/-- The bytes that separate fields. -/
def separators (state : State) : Bytes :=
  (state.bound? ['I', 'F', 'S']).getD [0x20, 0x09, 0x0A]

/-- The greatest length of a value; a script that makes longer ones is held never to end. -/
def greatestLength : Nat := 1 <<< 22

/-- The state with a value of a variable, unless that cannot be changed; `speaker` stands in front
of what is told then. -/
def assign (state : State) (line : Nat) (speaker : String) (name : Text) (value : Option Bytes) :
    State :=
  if state.fixed.contains name then
    state.fail line (speaker ++ String.ofList name ++ ": is read only")
  else if value.any fun value => greatestLength < value.length then
    { state with finish := some .never }
  else state.bind name value

/-- The letters of the options that are set. -/
def options (state : State) : Bytes :=
  bytes ((if state.needsValues then "u" else "") ++ (if state.isTraced then "x" else "") ++
    (if state.isStrict then "e" else ""))

/-- The value of a parameter, if it has one. -/
def value? (state : State) (name : Text) : Option Bytes :=
  match digitsValue? 10 name with
  | some 0 => some state.zero
  | some n => state.arguments[n - 1]?
  | none =>
    let joined := fun separator : Bytes =>
      if state.arguments.isEmpty then none
      else some (state.arguments.intersperse separator).flatten
    match String.ofList name with
    | "@" => joined [0x20]
    | "*" => joined (state.separators.take 1)
    | "#" => some (Utf8.encode (decimal state.arguments.length))
    | "?" => some (Utf8.encode (decimal state.code))
    | "$" => some (Utf8.encode (decimal shellNumber))
    | "!" => state.jobs.head?.map fun job => Utf8.encode (decimal job.number)
    | "-" => some state.options
    | _ => state.bound? name

/-! ## Scripts within scripts -/

/-- The state of a script within a script: it writes on its own and has not ended. -/
def inner (state : State) : State :=
  let opened := (state.targets.map Prod.fst ++ state.opened).filter fun descriptor =>
    2 < descriptor && state.target descriptor ≠ .closed
  { state with
    written := []
    opened
    targets := []
    finish := none
    traps := state.traps.filter fun trap => trap.2.isEmpty }

/-- The state after a script within a script has run, but for what it wrote. -/
def resume (state inner : State) : State :=
  { state with
    input := inner.input
    code := inner.code
    clock := inner.clock
    jobs := inner.jobs
    finish := match inner.finish with
      | some (.killed signal) => some (.killed signal)
      | some .never => some .never
      | _ => state.finish }

/-- The code of a script within a script that is over. -/
def finalCode (state : State) : Nat :=
  match state.finish with
  | some (.exited code) => code % 256
  | _ => state.code % 256

/-- Whether a loop that comes from one state to the other goes on in the same way for ever. -/
def isRepeatedBy (before after : State) : Bool :=
  before.bound = after.bound && before.arguments = after.arguments && before.code = after.code &&
    before.input = after.input

/-- The state after a round of a loop that goes on in the same way for ever: more than a pipe holds
has been written if anything is. -/
def forever (before after : State) : State :=
  let round := after.written.take (after.written.length - before.written.length)
  let output := ((round.filter fun written => written.1 = .output).reverse.map Prod.snd).flatten
  let written :=
    if output.isEmpty then after.written
    else
      let rounds := endlessLength / output.length + 1
      (.output, (List.replicate rounds output).flatten) :: after.written
  { after with written, finish := some .never }

/-- What was written to a channel. -/
def writtenTo (state : State) (channel : Channel) : Bytes :=
  ((state.written.filter fun written => written.1 = channel).reverse.map Prod.snd).flatten

/-- What is known of the run of a script that has this state in the end. -/
def outcome (state : State) : Outcome where
  written := state.written.reverse
  unread := state.input
  ending := match state.finish with
    | some (.killed signal) => .killed signal
    | _ => .exited state.finalCode
  duration := match state.finish with
    | some .never => none
    | _ => some (max state.clock (endOf (state.jobs.filter Job.isAttached)))

end State

end Marginalia.Program
