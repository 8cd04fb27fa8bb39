import Marginalia.Program.Escape
import Marginalia.Program.Switch

/-! # Waiting

The program `sleep` lets the time pass that its operands tell.
-/
namespace Marginalia.Program

open Text

/-- The unit of a time in seconds, by its letter. -/
def timeUnit? (unit : Text) : Option Nat :=
  match unit with
  | [] | ['s'] => some 1
  | ['m'] => some 60
  | ['h'] => some 3600
  | ['d'] => some 86400
  | _ => none

/-- The power of ten that a number ends with, and what follows. -/
def exponent (text : Text) : Int × Text :=
  match text with
  | c :: rest =>
    let (isNegative, digits) := match rest with
      | '-' :: digits => (true, digits)
      | '+' :: digits => (false, digits)
      | _ => (false, rest)
    let number := digits.takeWhile Char.isDigit
    match digitsValue? 10 number with
    | some n =>
      if c = 'e' || c = 'E' then
        (if isNegative then -(n : Int) else n, digits.drop number.length)
      else (0, text)
    | none => (0, text)
  | [] => (0, [])

/-- Times with more digits than this in front of the point are held to have no end. -/
def greatestExponent : Nat := 40

/-- The number of milliseconds in a time with digits, a fraction and a unit; none is for a time
without end. -/
def milliseconds? (time : Text) : Option (Option Nat) :=
  let time := time.dropWhile fun c => [' ', '\t', '\n', '\x0b', '\x0c', '\r'].contains c
  let time := match time with
    | '+' :: time => time
    | _ => time
  let letters := time.takeWhile Char.isAlpha
  let name := String.ofList (letters.map Char.toLower)
  if name.startsWith "inf" then
    let unit := if name.startsWith "infinity" then letters.drop 8 else letters.drop 3
    (timeUnit? (unit ++ time.drop letters.length)).map fun _ => none
  else
    let (whole, rest) := time.span Char.isDigit
    let (fraction, rest) := match rest with
      | '.' :: rest => rest.span Char.isDigit
      | _ => ([], rest)
    let (power, unit) := exponent rest
    match timeUnit? unit, digitsValue? 10 (whole ++ fraction) with
    | some unit, some value =>
      let power := power + 3 - fraction.length
      if value = 0 then some (some 0)
      else if (greatestExponent : Int) < power then some none
      else if 0 ≤ power then some (some (value * Nat.pow 10 power.toNat * unit))
      else if ((whole.length + fraction.length + 8 : Nat) : Int) < -power then some (some 0)
      else some (some (value * unit / Nat.pow 10 (-power).toNat))
    | _, _ => none

/-- The sum of times, without end if one of them is. -/
def sumOfTimes (times : List (Option Nat)) : Option Nat :=
  times.foldl (fun total time => total.bind fun a => time.map (a + ·)) (some 0)

/-- Lets the time pass that the arguments tell. -/
def sleep : Run := fun arguments input =>
  match readArguments ([] : List (Switch Unit)) true arguments with
  | .error fault => .failure 1 (fault.report "sleep") input
  | .ok (_, operands) =>
    if arguments.isEmpty then .failure 1 (callMessage "sleep" "missing operand") input else
    let times := operands.map fun operand => (operand, milliseconds? (textOf operand).toList)
    match times.filter fun time => time.2.isNone with
    | [] => { Outcome.success [] input with duration := sumOfTimes (times.filterMap Prod.snd) }
    | wrong =>
      let reports := wrong.map fun time =>
        "sleep: invalid time interval " ++ quoted time.1 ++ "\n"
      .failure 1 (String.join reports ++ "Try 'sleep --help' for more information.") input

end Marginalia.Program
