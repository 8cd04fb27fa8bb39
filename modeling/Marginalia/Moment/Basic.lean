import Marginalia.Text.Number

/-! # Moments

A moment of Universal Time: a day of the Gregorian calendar, extended in both directions, and a
time of that day to the nanosecond.  A leap second is the second before it with a fraction of a
second or more.

Two written forms leave the library: the full form with as few digits of the fraction as are
exact, and the short form of margin notes.
-/
namespace Marginalia

open Text

/-- A date of the Gregorian calendar. -/
structure Date where
  year : Int
  month : Nat
  day : Nat
  deriving DecidableEq, Repr

namespace Date

/-- The number of days in 400 years. -/
def daysPerEra : Int := 146097

/-- The days from the first of March of the year zero to the first of January 1970. -/
def epochOffset : Int := 719468

/-- The number of days after the first of January 1970. -/
def toDays (date : Date) : Int :=
  let year := if date.month ≤ 2 then date.year - 1 else date.year
  let era := year.fdiv 400
  let yearOfEra := year - era * 400
  let month : Int := if date.month > 2 then date.month - 3 else date.month + 9
  let dayOfYear := (153 * month + 2) / 5 + date.day - 1
  let dayOfEra := yearOfEra * 365 + yearOfEra / 4 - yearOfEra / 100 + dayOfYear
  era * daysPerEra + dayOfEra - epochOffset

/-- The date a number of days after the first of January 1970. -/
def ofDays (days : Int) : Date :=
  let shifted := days + epochOffset
  let era := shifted.fdiv daysPerEra
  let dayOfEra := shifted - era * daysPerEra
  let yearOfEra :=
    (dayOfEra - dayOfEra / 1460 + dayOfEra / 36524 - dayOfEra / 146096) / 365
  let dayOfYear := dayOfEra - (365 * yearOfEra + yearOfEra / 4 - yearOfEra / 100)
  let month := (5 * dayOfYear + 2) / 153
  let day := dayOfYear - (153 * month + 2) / 5 + 1
  let year := yearOfEra + era * 400
  if month < 10 then ⟨year, (month + 3).toNat, day.toNat⟩
  else ⟨year + 1, (month - 9).toNat, day.toNat⟩

/-- Whether the year has a leap day. -/
def isLeapYear (year : Int) : Bool :=
  year % 4 == 0 && (year % 100 != 0 || year % 400 == 0)

/-- The number of days of a month. -/
def daysInMonth (year : Int) : Nat → Nat
  | 2 => if isLeapYear year then 29 else 28
  | 4 | 6 | 9 | 11 => 30
  | _ => 31

/-- The first year that a date can have. -/
def firstYear : Int := -262143

/-- The last year that a date can have. -/
def lastYear : Int := 262142

/-- Whether the date exists and its year is in range. -/
def isValid (date : Date) : Bool :=
  firstYear ≤ date.year && date.year ≤ lastYear && 1 ≤ date.month && date.month ≤ 12 &&
    1 ≤ date.day && date.day ≤ daysInMonth date.year date.month

end Date

/-- A moment: the days after the first of January 1970, the second of the day, and the
nanoseconds after it. -/
structure Moment where
  days : Int
  second : Nat
  nanosecond : Nat
  deriving DecidableEq, Repr

namespace Moment

/-- The number of nanoseconds in a second. -/
def nanosPerSecond : Nat := 1000000000

/-- A year in at least four digits; one outside the first ten thousand has its sign. -/
def yearText (year : Int) : Text :=
  if 0 ≤ year && year ≤ 9999 then padded 4 year.toNat
  else (if year < 0 then '-' else '+') :: padded 4 year.natAbs

/-- The fraction of a second in no digits, or in three, six or nine, the fewest that are exact. -/
def fractionText (nanosecond : Nat) : Text :=
  if nanosecond == 0 then []
  else if nanosecond % 1000000 == 0 then '.' :: padded 3 (nanosecond / 1000000)
  else if nanosecond % 1000 == 0 then '.' :: padded 6 (nanosecond / 1000)
  else '.' :: padded 9 nanosecond

/-- The date of the moment. -/
def date (moment : Moment) : Date :=
  Date.ofDays moment.days

/-- The full form, such as `2025-02-03T14:22:00.5Z` with three digits after the point. -/
def toText (moment : Moment) : Text :=
  let date := moment.date
  let leap := moment.nanosecond / nanosPerSecond
  yearText date.year ++ '-' :: padded 2 date.month ++ '-' :: padded 2 date.day ++
    'T' :: padded 2 (moment.second / 3600) ++ ':' :: padded 2 (moment.second / 60 % 60) ++
    ':' :: padded 2 (moment.second % 60 + leap) ++
    fractionText (moment.nanosecond % nanosPerSecond) ++ ['Z']

/-- The short name of a month. -/
def monthName : Nat → Text
  | 1 => "Jan".toList
  | 2 => "Feb".toList
  | 3 => "Mar".toList
  | 4 => "Apr".toList
  | 5 => "May".toList
  | 6 => "Jun".toList
  | 7 => "Jul".toList
  | 8 => "Aug".toList
  | 9 => "Sep".toList
  | 10 => "Oct".toList
  | 11 => "Nov".toList
  | _ => "Dec".toList

/-- The short form, such as `03 Feb 2025 14:22`. -/
def shortText (moment : Moment) : Text :=
  let date := moment.date
  padded 2 date.day ++ ' ' :: monthName date.month ++ ' ' :: yearText date.year ++
    ' ' :: padded 2 (moment.second / 3600) ++ ':' :: padded 2 (moment.second / 60 % 60)

end Moment

end Marginalia
