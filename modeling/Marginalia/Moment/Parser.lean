import Marginalia.Moment.Basic
import Marginalia.Text.Blank

/-! # Reading moments

A moment is written as a date, a time of day with an optional fraction of a second, and the offset
of its time zone.  The reader is lenient: white space may stand before numbers and separators,
numbers may have fewer digits, and the date may be parted from the time by a space.  Digits past
the ninth of a fraction are dropped, and the sixtieth second is a leap second.
-/
namespace Marginalia.Moment

open Text

/-- Reads a number of one to `width` digits. -/
def readDigits? (width : Nat) (text : Text) : Option (Nat × Text) :=
  let digits := (text.take width).takeWhile Char.isDigit
  (digitsValue? 10 digits).map (·, text.drop digits.length)

/-- Reads a number of one to `width` digits after white space. -/
def readNumber? (width : Nat) (text : Text) : Option (Nat × Text) :=
  readDigits? width (trimStart text)

/-- Reads a year: up to four digits, or any number of them after a sign. -/
def readYear? (text : Text) : Option (Int × Text) :=
  match trimStart text with
  | '-' :: rest => (readDigits? rest.length rest).map fun (n, rest) => (-(n : Int), rest)
  | '+' :: rest => (readDigits? rest.length rest).map fun (n, rest) => ((n : Int), rest)
  | rest => (readDigits? 4 rest).map fun (n, rest) => ((n : Int), rest)

/-- Reads a separator after white space. -/
def readSeparator? (separator : Char) (text : Text) : Option Text :=
  match trimStart text with
  | c :: rest => if c = separator then some rest else none
  | [] => none

/-- Reads a date that exists. -/
def readDate? (text : Text) : Option (Date × Text) := do
  let (year, text) ← readYear? text
  let (month, text) ← readNumber? 2 (← readSeparator? '-' text)
  let (day, text) ← readNumber? 2 (← readSeparator? '-' text)
  let date : Date := ⟨year, month, day⟩
  guard date.isValid
  return (date, text)

/-- Reads a fraction of a second in nanoseconds, if there is one. -/
def readFraction? : Text → Option (Nat × Text)
  | '.' :: rest => do
    let digits := (rest.take 9).takeWhile Char.isDigit
    let n ← digitsValue? 10 digits
    return (n * Nat.pow 10 (9 - digits.length), rest.dropWhile Char.isDigit)
  | text => some (0, text)

/-- Reads a time of day: the second and the nanoseconds after it. -/
def readTime? (text : Text) : Option (Nat × Nat × Text) := do
  let (hour, text) ← readNumber? 2 text
  let (minute, text) ← readNumber? 2 (← readSeparator? ':' text)
  let (second, text) ← readNumber? 2 (← readSeparator? ':' text)
  let (nanosecond, text) ← readFraction? text
  guard (hour < 24 && minute < 60 && second ≤ 60)
  if second = 60 then
    return (hour * 3600 + minute * 60 + 59, nanosPerSecond + nanosecond, text)
  else
    return (hour * 3600 + minute * 60 + second, nanosecond, text)

/-- The number of two digits. -/
def twoDigits? (high low : Char) : Option Nat :=
  digitsValue? 10 [high, low]

/-- Reads the hours and minutes of an offset, in seconds. -/
def readHours? : Text → Option (Nat × Text)
  | h :: h' :: rest => do
    let hours ← twoDigits? h h'
    match rest.dropWhile fun c => c == ':' || isBlank c with
    | m :: m' :: rest =>
      let minutes ← twoDigits? m m'
      guard (minutes < 60)
      return (hours * 3600 + minutes * 60, rest)
    | _ => none
  | _ => none

/-- Reads the offset of a time zone from Universal Time, in seconds. -/
def readOffset? (text : Text) : Option (Int × Text) :=
  if (text.take 3).map Char.toUpper = ['U', 'T', 'C'] then some (0, text.drop 3)
  else
    match text with
    | c :: rest =>
      if c = 'Z' ∨ c = 'z' then some (0, rest)
      else if c = '+' then (readHours? rest).map fun (n, rest) => ((n : Int), rest)
      else if c = '-' ∨ c = '\u2212' then
        (readHours? rest).map fun (n, rest) => (-(n : Int), rest)
      else none
    | [] => none

/-- The number of seconds in a day. -/
def secondsPerDay : Int := 86400

/-- The moment of a local date and time in a time zone. -/
def ofLocal? (date : Date) (second nanosecond : Nat) (offset : Int) : Option Moment :=
  if -secondsPerDay < offset ∧ offset < secondsPerDay then
    let total := date.toDays * secondsPerDay + second - offset
    let moment : Moment :=
      ⟨total.fdiv secondsPerDay, (total.fmod secondsPerDay).toNat, nanosecond⟩
    if Date.firstYear ≤ moment.date.year ∧ moment.date.year ≤ Date.lastYear then some moment
    else none
  else none

/-- The moment that a text denotes. -/
def ofText? (text : Text) : Option Moment := do
  let (date, text) ← readDate? text
  match text with
  | c :: text =>
    guard (c = 't' || c = 'T' || c = ' ')
    let (second, nanosecond, text) ← readTime? text
    let (offset, text) ← readOffset? (trimStart text)
    guard (trimStart text).isEmpty
    ofLocal? date second nanosecond offset
  | [] => none

end Marginalia.Moment
