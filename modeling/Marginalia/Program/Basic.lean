import Marginalia.Text.Number
import Marginalia.Text.Utf8

/-! # Programs

A program reads bytes, writes bytes to two channels, and ends.  An `Outcome` is what is known of a
run: what was written and in which order, what of the input was left unread, how the program
ended, and after how long.

`Outcome.text` gives what was written to one channel.
-/
namespace Marginalia

open Text

/-- A sequence of bytes. -/
abbrev Bytes := List UInt8

namespace Program

/-- The byte that ends a line. -/
def lineFeed : UInt8 := 0x0A

/-- The bytes of a text that is known in advance. -/
def bytes (text : String) : Bytes :=
  Utf8.encode text.toList

/-- The text of bytes, such as a name or an option. -/
def textOf (bytes : Bytes) : String :=
  String.ofList (Utf8.decodeLossy bytes)

/-- Where a program writes. -/
inductive Channel where
  | output
  | errors
  /-- What a script has opened, by its descriptor. -/
  | other (descriptor : Nat)
  deriving DecidableEq, Repr

/-- How a program ends: with a code of its own, or by a signal. -/
inductive Ending where
  | exited (code : Nat)
  | killed (signal : Nat)
  deriving DecidableEq, Repr

/-- The signals by number and name. -/
def signals : List (Nat × String) :=
  [(1, "HUP"), (2, "INT"), (3, "QUIT"), (4, "ILL"), (5, "TRAP"), (6, "ABRT"), (7, "BUS"),
   (8, "FPE"), (9, "KILL"), (10, "USR1"), (11, "SEGV"), (12, "USR2"), (13, "PIPE"), (14, "ALRM"),
   (15, "TERM"), (16, "STKFLT"), (17, "CHLD"), (18, "CONT"), (19, "STOP"), (20, "TSTP"),
   (21, "TTIN"), (22, "TTOU"), (23, "URG"), (24, "XCPU"), (25, "XFSZ"), (26, "VTALRM"),
   (27, "PROF"), (28, "WINCH"), (29, "IO"), (30, "PWR"), (31, "SYS")]

/-- The number of signals. -/
def signalCount : Nat := 65

/-- The number of the signal that a number or a name stands for. -/
def signal? (text : String) : Option Nat :=
  match digitsValue? 10 text.toList with
  | some number => if number < signalCount then some number else none
  | none => (signals.find? fun signal => text.toUpper = signal.2).map Prod.fst

namespace Ending

/-- Whether the program succeeded. -/
def isSuccess : Ending → Bool
  | exited code => code = 0
  | killed _ => false

/-- The code that a script sees. -/
def code : Ending → Nat
  | exited code => code
  | killed signal => 128 + signal

/-- The ending in words. -/
def description : Ending → String
  | exited code => "exit status: " ++ String.ofList (decimal code)
  | killed signal =>
    let name := match signals.find? fun known => known.1 = signal with
      | some (_, name) => " (SIG" ++ name ++ ")"
      | none => ""
    "signal: " ++ String.ofList (decimal signal) ++ name

end Ending

/-- What is known of a run. -/
structure Outcome where
  /-- What was written, in order. -/
  written : List (Channel × Bytes)
  unread : Bytes
  ending : Ending
  /-- The time that the run takes, in milliseconds; none if it never ends. -/
  duration : Option Nat

/-- A program, given its arguments and its input. -/
abbrev Run := List Bytes → Bytes → Outcome

namespace Outcome

/-- A run that writes to the output and succeeds. -/
def success (output unread : Bytes) : Outcome :=
  ⟨[(.output, output)], unread, .exited 0, some 0⟩

/-- A run that tells what is wrong and fails. -/
def failure (code : Nat) (message : String) (unread : Bytes) : Outcome :=
  ⟨[(.errors, bytes (message ++ "\n"))], unread, .exited code, some 0⟩

/-- What was written to a channel. -/
def text (outcome : Outcome) (channel : Channel) : Bytes :=
  (outcome.written.filter fun written => written.1 = channel).flatMap Prod.snd

end Outcome

/-- The bytes that a pipe holds before the writer has to wait for the reader. -/
def pipeCapacity : Nat := 65536

end Program

end Marginalia
