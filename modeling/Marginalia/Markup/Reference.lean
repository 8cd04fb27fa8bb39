import Marginalia.Text.Number
import Marginalia.Markup.NamedCharacters

/-! # Character references

What an ampersand and the text after it stand for.  A numeric reference gives a code point in
decimal or hexadecimal digits and ends with a semicolon close by; a named reference is the longest
name of the table at hand.  A reading gives the characters shown and the number of characters
after the ampersand that belong to the reference.
-/
namespace Marginalia.Markup

open Text

/-- A character reference: the text it shows and its length after the ampersand. -/
structure Reference where
  shown : Text
  length : Nat
  deriving DecidableEq, Repr

namespace Reference

/-- The code point that the digits of a numeric reference give. -/
def code? : Text → Option Nat
  | 'x' :: digits => number? 16 digits
  | 'X' :: digits => number? 16 digits
  | digits => number? 10 digits

/-- The number of characters after the number sign among which the semicolon must come. -/
def numericReach : Nat := 10

/-- Reads a numeric reference after its number sign. -/
def numeric? (text : Text) : Option Reference := do
  let digits := (text.take numericReach).takeWhile (· != ';')
  guard ((text.take numericReach).contains ';')
  let c ← scalar? (← code? digits)
  return ⟨[c], digits.length + 2⟩

/-- The length of the longest name, without its semicolon. -/
def longestName : Nat := 31

/-- The longest of the first `n` fronts of the text that is a name. -/
def longest? (find? : Text → Option Text) (text : Text) : Nat → Option Reference
  | 0 => none
  | n + 1 =>
    match find? (text.take (n + 1)) with
    | some shown => some ⟨shown, n + 1⟩
    | none => longest? find? text n

/-- Reads a named reference after its ampersand, with the names that `find?` knows. -/
def named? (find? : Text → Option Text) (text : Text) : Option Reference :=
  let run := (text.take longestName).takeWhile Char.isAlphanum
  let whole? :=
    if (text.drop run.length).head? = some ';' && !run.isEmpty then find? (run ++ [';']) else none
  match whole? with
  | some shown => some ⟨shown, run.length + 1⟩
  | none => longest? find? text run.length

/-- Reads a reference after its ampersand. -/
def read? : Text → Option Reference
  | '#' :: text => numeric? text
  | text => named? NamedCharacters.find? text

end Reference

end Marginalia.Markup
