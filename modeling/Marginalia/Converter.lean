import Marginalia.Conversion
import Marginalia.Program.Shell
import Marginalia.Settings.Basic

/-! # Converters

A converter is a program with its arguments and a time limit.  It is given the marked-up text and
its output is the LaTeX.  The programs are those that the library knows; any other one cannot be
started.

`convert` says which of several faults is told: that the program cannot be started, that it runs up
to the limit, that it fails, that it leaves input unread, that its output is not in UTF-8.
-/
namespace Marginalia

open Text

/-- A program with its arguments and a time limit in milliseconds. -/
structure Converter where
  program : String
  arguments : List String
  limit : Nat
  deriving DecidableEq, Repr

namespace Converter

/-- The converter that settings describe. -/
def ofSettings (settings : ConverterSettings) : Converter where
  program := settings.program
  arguments := settings.arguments
  limit := Settings.timeoutMilliseconds settings

/-- A converter without arguments and with the standard limit. -/
def ofProgram (program : String) : Converter :=
  { ofSettings .standard with program, arguments := [] }

/-- The run of the converter's program; none if it cannot be started.  An argument is handed over
up to a NUL, so no argument may hold one. -/
def start? (converter : Converter) : Option (Bytes → Program.Outcome) :=
  if converter.arguments.any fun argument => argument.toList.contains '\x00' then none
  else
    (Program.ofName? converter.program).map fun run =>
      run (converter.arguments.map Program.bytes)

/-- Whether a run ends before the limit. -/
def isInTime (converter : Converter) (outcome : Program.Outcome) : Bool :=
  match outcome.duration with
  | some duration => duration < converter.limit
  | none => false

/-- The text that a run wrote, or why there is none. -/
def textOf (converter : Converter) (outcome : Program.Outcome) : Except ConversionError Text :=
  let program := converter.program
  -- A run that is stopped by the limit has no ending to speak of, so the limit comes first.
  if !converter.isInTime outcome then .error (.timeout program converter.limit)
  else if !outcome.ending.isSuccess then
    .error (.failed program outcome.ending.description
      (String.ofList (trim (Utf8.decodeLossy (outcome.text .errors)))))
  else if Program.pipeCapacity < outcome.unread.length then .error (.io program)
  else
    match Utf8.decode? (outcome.text .output) with
    | some text => .ok text
    | none => .error (.notUtf8 program)

/-- Converts a text. -/
def convert (converter : Converter) (text : Text) : Except ConversionError Text :=
  match converter.start? with
  | none => .error (.spawn converter.program)
  | some run => converter.textOf (run (Utf8.encode text))

end Converter

end Marginalia
