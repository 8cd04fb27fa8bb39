import Marginalia.Text.Basic

/-! # Numbers in digits

Reading numbers written in digits of a base up to sixteen, and writing them in decimal.
-/
namespace Marginalia.Text

/-- One more than the greatest number that 64 bits hold. -/
def wordBound : Nat := 0x10000000000000000

/-- One more than the greatest number that 64 bits hold with a sign. -/
def signedBound : Nat := 0x8000000000000000

/-- The value of a digit, if it is below the base. -/
def digitValue? (base : Nat) (c : Char) : Option Nat :=
  let value? :=
    if '0' ≤ c && c ≤ '9' then some (c.toNat - '0'.toNat)
    else if 'a' ≤ c && c ≤ 'f' then some (c.toNat - 'a'.toNat + 10)
    else if 'A' ≤ c && c ≤ 'F' then some (c.toNat - 'A'.toNat + 10)
    else none
  value?.filter (· < base)

/-- The number written by digits alone, of which there is at least one. -/
def digitsValue? (base : Nat) (digits : Text) : Option Nat :=
  if digits.isEmpty then none
  else digits.foldlM (fun value c => (digitValue? base c).map (value * base + ·)) 0

/-- The number written by digits, which may follow a plus sign. -/
def number? (base : Nat) : Text → Option Nat
  | '+' :: digits => digitsValue? base digits
  | digits => digitsValue? base digits

/-- A number in decimal digits. -/
def decimal (n : Nat) : Text :=
  Nat.toDigits 10 n

/-- A number in decimal digits, with zeros in front up to the given width. -/
def padded (width n : Nat) : Text :=
  List.replicate (width - (decimal n).length) '0' ++ decimal n

/-- A number in lower-case hexadecimal digits. -/
def hexadecimal (n : Nat) : Text :=
  Nat.toDigits 16 n

/-- The character of a code point; surrogates and numbers past the last code point have none. -/
def scalar? (n : Nat) : Option Char :=
  if n < 0xD800 || (0xE000 ≤ n && n < 0x110000) then some (Char.ofNat n) else none

end Marginalia.Text
