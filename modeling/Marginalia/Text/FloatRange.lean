import Marginalia.Text.Number

/-! # The range of floating-point numbers

Numbers of 64-bit floating point have 53 significant bits and lie below `2^1024`.  A greater number
is out of range, and so is one that rounding takes there.

Two readers meet the limit.  `isBeyondFloats` takes a decimal number as it is.  `isBeyondProduct`
takes it as the product of a significand and a power of ten that are each rounded first.
-/
namespace Marginalia.Text

/-- The least number that rounding takes out of range: it lies half-way between the greatest
number with 53 significant bits and the next power of two. -/
def floatLimit : Nat :=
  (1 <<< 1024) - (1 <<< 970)

/-- The power of ten with the given exponent. -/
def powerOfTen (exponent : Nat) : Nat :=
  Nat.pow 10 exponent

/-- A number rounded to 53 significant bits, a half to the even neighbour. -/
def roundToFloat (n : Nat) : Nat :=
  let dropped := n.log2 - 52
  let kept := n >>> dropped
  let rest := n - (kept <<< dropped)
  let half := (1 <<< dropped) / 2
  if rest < half || dropped = 0 || (rest = half && kept % 2 = 0) then kept <<< dropped
  else (kept + 1) <<< dropped

/-- Whether the number written by decimal digits, with the point moved by the exponent, is out of
range. -/
def isBeyondFloats (digits : Text) (exponent : Int) : Bool :=
  let significant := digits.dropWhile (· == '0')
  match digitsValue? 10 significant with
  | none => false
  | some n =>
    -- The number has `top` digits before the point, so only one case is close to the limit.
    let top := (significant.length : Int) + exponent
    if top = 309 then
      floatLimit * powerOfTen (-exponent).toNat ≤ n * powerOfTen exponent.toNat
    else 309 < top

/-- Whether the product of a significand and a power of ten is out of range, with both rounded
before. -/
def isBeyondProduct (significand : Nat) (exponent : Int) : Bool :=
  if significand = 0 || exponent < 0 then false
  else
    308 < exponent ||
      floatLimit ≤ roundToFloat significand * roundToFloat (powerOfTen exponent.toNat)

end Marginalia.Text
