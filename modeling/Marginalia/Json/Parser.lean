import Marginalia.Json.Basic
import Marginalia.Text.FloatRange

/-! # Reading JSON

A reader for JSON texts.  Every function reads from the front of a text and gives what is left;
`fuel` bounds the nesting and the number of values, and the length of the text is enough.
-/
namespace Marginalia.Json

open Text

/-- What follows the white space of JSON. -/
def skipSpace (text : Text) : Text :=
  text.dropWhile fun c => c == ' ' || c == '\t' || c == '\n' || c == '\r'

/-- The number of four hexadecimal digits at the front of a text. -/
def hex4? (text : Text) : Option Nat :=
  if (text.take 4).length = 4 then digitsValue? 16 (text.take 4) else none

/-- The character of an escape by code unit, after its letter, and the number of characters it
takes; two escapes may give a character together. -/
def unitEscape? (text : Text) : Option (Char × Nat) := do
  let high ← hex4? text
  if 0xD800 ≤ high ∧ high < 0xDC00 then
    let low ← hex4? (← ['\\', 'u'].isPrefixOf? (text.drop 4))
    if 0xDC00 ≤ low ∧ low < 0xE000 then
      return (Char.ofNat (0x10000 + (high - 0xD800) * 0x400 + (low - 0xDC00)), 10)
    else none
  else
    return (← scalar? high, 4)

/-- The character of an escape by letter. -/
def letterEscape? : Char → Option Char
  | '"' => some '"'
  | '\\' => some '\\'
  | '/' => some '/'
  | 'b' => some '\x08'
  | 'f' => some '\x0c'
  | 'n' => some '\n'
  | 'r' => some '\r'
  | 't' => some '\t'
  | _ => none

/-- Reads a string after its opening quote; `front` holds the characters before, latest first, if
they can be read.  Half of a surrogate pair is well-formed but cannot be read. -/
def readString? (front : Option Text) (text : Text) : Option (Option String × Text) :=
  match text with
  | [] => none
  | '"' :: rest => some (front.map fun front => String.ofList front.reverse, rest)
  | '\\' :: 'u' :: rest =>
    match unitEscape? rest with
    | some (c, length) => readString? (front.map (c :: ·)) (rest.drop length)
    | none => if (hex4? rest).isSome then readString? none (rest.drop 4) else none
  | '\\' :: c :: rest =>
    match letterEscape? c with
    | some c => readString? (front.map (c :: ·)) rest
    | none => none
  | c :: rest =>
    if c.toNat < 0x20 || c = '\\' then none else readString? (front.map (c :: ·)) rest
termination_by text.length
decreasing_by all_goals simp; try omega

/-- Reads digits, of which there must be at least one. -/
def readDigits? (text : Text) : Option (Text × Text) :=
  let digits := text.takeWhile Char.isDigit
  if digits.isEmpty then none else some (digits, text.dropWhile Char.isDigit)

/-- Reads the digits before the point: a zero stands alone. -/
def readWholeDigits? : Text → Option (Text × Text)
  | '0' :: rest => if rest.head?.any Char.isDigit then none else some (['0'], rest)
  | text => readDigits? text

/-- Reads a fraction if there is one, and gives its digits. -/
def readFraction? : Text → Option (Option Text × Text)
  | '.' :: rest => (readDigits? rest).map fun (digits, rest) => (some digits, rest)
  | text => some (none, text)

/-- Reads an exponent if there is one. -/
def readExponent? : Text → Option (Option Int × Text)
  | c :: rest =>
    if c = 'e' ∨ c = 'E' then do
      let (isNegative, rest) := match rest with
        | '+' :: tail => (false, tail)
        | '-' :: tail => (true, tail)
        | _ => (false, rest)
      let (digits, rest) ← readDigits? rest
      let n ← digitsValue? 10 digits
      return (some (if isNegative then -(n : Int) else n), rest)
    else some (none, c :: rest)
  | [] => some (none, [])

/-- Appends digits to a number as long as 64 bits hold it, and gives the digits that are left. -/
def appendDigits (n : Nat) : Text → Nat × Text
  | [] => (n, [])
  | c :: digits =>
    let longer := n * 10 + (c.toNat - '0'.toNat)
    if longer < wordBound then appendDigits longer digits else (n, c :: digits)

/-- A number that is not a whole one of 64 bits.  The digits that 64 bits do not hold only move the
point, or count for nothing if they come after it. -/
def otherNumber (digits fraction : Text) (exponent : Int) : Json :=
  let (front, moved) := appendDigits 0 digits
  let (significand, dropped) := appendDigits front fraction
  let point := (moved.length : Int) - (fraction.length - dropped.length : Nat)
  if isBeyondProduct significand (exponent + point) then .unreadable else .fractional

/-- The number of a sign and digits. -/
def wholeNumber (isNegative : Bool) (digits : Text) : Json :=
  let n := (digitsValue? 10 digits).getD 0
  if isNegative ∧ 0 < n ∧ n ≤ signedBound then .whole (-(n : Int))
  else if ¬isNegative ∧ n < wordBound then .whole n
  else otherNumber digits [] 0

/-- Reads a number. -/
def readNumber? (text : Text) : Option (Json × Text) := do
  let (isNegative, text) := match text with
    | '-' :: rest => (true, rest)
    | _ => (false, text)
  let (digits, text) ← readWholeDigits? text
  let (fraction, text) ← readFraction? text
  let (exponent, text) ← readExponent? text
  if fraction.isNone && exponent.isNone then return (wholeNumber isNegative digits, text)
  else return (otherNumber digits (fraction.getD []) (exponent.getD 0), text)

/-- An object with the given members, if their names can be read. -/
def objectOf (members : List (Option String × Json)) : Json :=
  match members.mapM fun (name, value) => name.map (·, value) with
  | some members => .object members
  | none => .unreadable

mutual

/-- Reads a value at the front of a text. -/
def readValue? (fuel : Nat) (text : Text) : Option (Json × Text) :=
  match fuel with
  | 0 => none
  | fuel + 1 =>
    match skipSpace text with
    | '"' :: rest =>
      (readString? (some []) rest).map fun (value, rest) =>
        (match value with
          | some value => .string value
          | none => .unreadable, rest)
    | '[' :: rest =>
      match skipSpace rest with
      | ']' :: rest => some (.array [], rest)
      | _ => (readItems? fuel rest).map fun (items, rest) => (.array items, rest)
    | '\x7b' :: rest =>
      match skipSpace rest with
      | '\x7d' :: rest => some (.object [], rest)
      | _ => (readMembers? fuel rest).map fun (members, rest) => (objectOf members, rest)
    | 'n' :: 'u' :: 'l' :: 'l' :: rest => some (.null, rest)
    | 't' :: 'r' :: 'u' :: 'e' :: rest => some (.bool true, rest)
    | 'f' :: 'a' :: 'l' :: 's' :: 'e' :: rest => some (.bool false, rest)
    | rest => readNumber? rest

/-- Reads the items of an array, of which there is at least one, and its closing bracket. -/
def readItems? (fuel : Nat) (text : Text) : Option (List Json × Text) :=
  match fuel with
  | 0 => none
  | fuel + 1 =>
    match readValue? fuel text with
    | none => none
    | some (item, rest) =>
      match skipSpace rest with
      | ',' :: rest => (readItems? fuel rest).map fun (items, rest) => (item :: items, rest)
      | ']' :: rest => some ([item], rest)
      | _ => none

/-- Reads the members of an object, of which there is at least one, and its closing brace. -/
def readMembers? (fuel : Nat) (text : Text) : Option (List (Option String × Json) × Text) :=
  match fuel with
  | 0 => none
  | fuel + 1 =>
    match skipSpace text with
    | '"' :: rest =>
      match readString? (some []) rest with
      | none => none
      | some (name, rest) =>
        match skipSpace rest with
        | ':' :: rest =>
          match readValue? fuel rest with
          | none => none
          | some (value, rest) =>
            match skipSpace rest with
            | ',' :: rest =>
              (readMembers? fuel rest).map fun (members, rest) => ((name, value) :: members, rest)
            | '\x7d' :: rest => some ([(name, value)], rest)
            | _ => none
        | _ => none
    | _ => none

end

/-- The value of a JSON text. -/
def ofText? (text : Text) : Option Json :=
  match readValue? (2 * text.length + 2) text with
  | some (json, rest) => if (skipSpace rest).isEmpty then some json else none
  | none => none

end Marginalia.Json
