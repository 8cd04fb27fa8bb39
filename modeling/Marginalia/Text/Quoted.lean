import Marginalia.Text.Number
import Marginalia.Text.Unprintable

/-! # Quoted texts

A text between double quotes, as error messages show it: quotes, backslashes and the common
controls as two characters, what cannot be shown on its own by its code point in hexadecimal, and
everything else as it is.
-/
namespace Marginalia.Text

/-- A character as it stands between double quotes. -/
def quoteChar (c : Char) : Text :=
  if c == '"' then ['\\', '"']
  else if c == '\\' then ['\\', '\\']
  else if c == '\t' then ['\\', 't']
  else if c == '\r' then ['\\', 'r']
  else if c == '\n' then ['\\', 'n']
  else if c.toNat == 0 then ['\\', '0']
  else if isUnprintable c then "\\u\x7b".toList ++ hexadecimal c.toNat ++ ['\x7d']
  else [c]

/-- The text between double quotes. -/
def quoted (text : Text) : Text :=
  '"' :: (text.flatMap quoteChar ++ ['"'])

end Marginalia.Text
