import Marginalia.Text.Blank
import Marginalia.Text.Number
import Marginalia.Text.Quoted

/-! # Colours

Colours of red, green and blue in six hexadecimal digits.
-/
namespace Marginalia

open Text

/-- A colour by its three channels. -/
structure Color where
  red : UInt8
  green : UInt8
  blue : UInt8
  deriving DecidableEq, Repr

namespace Color

/-- The upper-case hexadecimal digit of a number below sixteen. -/
def hexDigit (n : Nat) : Char :=
  if n < 10 then Char.ofNat ('0'.toNat + n) else Char.ofNat ('A'.toNat + (n - 10))

/-- A channel in two digits. -/
def channelText (channel : UInt8) : Text :=
  [hexDigit (channel.toNat / 16), hexDigit (channel.toNat % 16)]

/-- The colour in six upper-case digits. -/
def toText (color : Color) : Text :=
  channelText color.red ++ channelText color.green ++ channelText color.blue

/-- The colour in six upper-case digits after a number sign. -/
def display (color : Color) : Text :=
  '#' :: color.toText

/-- The channel written by two digits. -/
def channel? (high low : Char) : Option UInt8 := do
  let h ← digitValue? 16 high
  let l ← digitValue? 16 low
  return UInt8.ofNat (h * 16 + l)

/-- Reads a colour: six hexadecimal digits, with white space around them and number signs in
front. -/
def ofText? (text : Text) : Option Color :=
  match (trim text).dropWhile (· = '#') with
  | [r, r', g, g', b, b'] => do
    return ⟨← channel? r r', ← channel? g g', ← channel? b b'⟩
  | _ => none

/-- What is said of a text that is no colour. -/
def unreadable (text : Text) : String :=
  "invalid hex colour " ++ String.ofList (quoted text)

end Color

end Marginalia
