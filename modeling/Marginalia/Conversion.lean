import Marginalia.Diagnostic
import Marginalia.Text.Blank
import Marginalia.Text.Number

/-! # Conversion

The errors of a converter, which turns the marked-up text with its sentinels into LaTeX.
-/
namespace Marginalia

open Text

/-- Why a converter gave no output. -/
inductive ConversionError where
  /-- The program could not be started. -/
  | spawn (program : String)
  /-- The program failed; its status and what it wrote of the reason. -/
  | failed (program status reason : String)
  /-- The program took longer than the limit, in milliseconds. -/
  | timeout (program : String) (milliseconds : Nat)
  /-- The output is not in UTF-8. -/
  | notUtf8 (program : String)
  /-- The program did not take its input. -/
  | io (program : String)
  /-- Any other reason. -/
  | other (reason : String)
  deriving DecidableEq, Repr

namespace ConversionError

/-- The digits after the point of a number of thousandths, without zeros at the end. -/
def thousandths (n : Nat) : Text :=
  match ((padded 3 n).reverse.dropWhile (· = '0')).reverse with
  | [] => []
  | digits => '.' :: digits

/-- A duration in the largest unit in which it is at least one. -/
def durationText (milliseconds : Nat) : Text :=
  if milliseconds = 0 then "0ns".toList
  else if milliseconds < 1000 then decimal milliseconds ++ "ms".toList
  else decimal (milliseconds / 1000) ++ thousandths (milliseconds % 1000) ++ ['s']

/-- What is told of the error. -/
def diagnostic : ConversionError → Diagnostic
  | spawn program =>
    { message := "failed to start converter " ++ program
      code := "gloss::converter::spawn"
      help := some ("is " ++ program ++ " installed and on PATH?")
      labels := none }
  | failed program status reason =>
    .plain ("converter " ++ program ++ " exited with " ++ status ++ ": " ++ reason)
      "gloss::converter::failed"
  | timeout program milliseconds =>
    .plain ("converter " ++ program ++ " did not finish within " ++
      String.ofList (durationText milliseconds)) "gloss::converter::timeout"
  | notUtf8 program =>
    .plain ("converter " ++ program ++ " produced output that is not UTF-8")
      "gloss::converter::encoding"
  | io program => .plain ("io error talking to converter " ++ program) "gloss::converter::io"
  | other reason => .plain ("conversion failed: " ++ reason) "gloss::converter::other"

end ConversionError

end Marginalia
