import Marginalia.Json.Basic
import Marginalia.Text.Number

/-! # Writing JSON

Two layouts of a JSON value: one line, and one line for each value with its nesting shown by two
spaces for each level.  A value whose text is not kept is written as null.
-/
namespace Marginalia.Json

open Text

/-- A character of a string as it is written. -/
def escapeChar (c : Char) : Text :=
  if c == '"' then ['\\', '"']
  else if c == '\\' then ['\\', '\\']
  else if c == '\x08' then ['\\', 'b']
  else if c == '\x0c' then ['\\', 'f']
  else if c == '\n' then ['\\', 'n']
  else if c == '\r' then ['\\', 'r']
  else if c == '\t' then ['\\', 't']
  else if c.toNat < 0x20 then
    let digits := hexadecimal c.toNat
    ['\\', 'u'] ++ List.replicate (4 - digits.length) '0' ++ digits
  else [c]

/-- A string as it is written. -/
def quote (value : String) : Text :=
  '"' :: (value.toList.flatMap escapeChar ++ ['"'])

/-- A whole number as it is written. -/
def wholeText (value : Int) : Text :=
  if value < 0 then '-' :: decimal value.natAbs else decimal value.toNat

mutual

/-- A value in one line. -/
def compact : Json → Text
  | null => "null".toList
  | bool value => if value then "true".toList else "false".toList
  | whole value => wholeText value
  | fractional => "null".toList
  | unreadable => "null".toList
  | string value => quote value
  | array items => '[' :: compactItems items
  | object members => '\x7b' :: compactMembers members

/-- The items of an array in one line, and its closing bracket. -/
def compactItems : List Json → Text
  | [] => [']']
  | [item] => compact item ++ [']']
  | item :: items => compact item ++ ',' :: compactItems items

/-- The members of an object in one line, and its closing brace. -/
def compactMembers : List (String × Json) → Text
  | [] => ['\x7d']
  | [(name, value)] => quote name ++ ':' :: compact value ++ ['\x7d']
  | (name, value) :: members =>
    quote name ++ ':' :: compact value ++ ',' :: compactMembers members

end

/-- A line feed and the indentation of a level. -/
def newline (level : Nat) : Text :=
  '\n' :: List.replicate (2 * level) ' '

mutual

/-- A value over several lines at a level. -/
def layout (level : Nat) : Json → Text
  | null => "null".toList
  | bool value => if value then "true".toList else "false".toList
  | whole value => wholeText value
  | fractional => "null".toList
  | unreadable => "null".toList
  | string value => quote value
  | array [] => ['[', ']']
  | array (item :: items) => '[' :: layoutItems level (item :: items)
  | object [] => ['\x7b', '\x7d']
  | object (member :: members) => '\x7b' :: layoutMembers level (member :: members)

/-- The items of an array over several lines, and its closing bracket. -/
def layoutItems (level : Nat) : List Json → Text
  | [] => newline level ++ [']']
  | [item] => newline (level + 1) ++ layout (level + 1) item ++ newline level ++ [']']
  | item :: items =>
    newline (level + 1) ++ layout (level + 1) item ++ ',' :: layoutItems level items

/-- The members of an object over several lines, and its closing brace. -/
def layoutMembers (level : Nat) : List (String × Json) → Text
  | [] => newline level ++ ['\x7d']
  | [(name, value)] =>
    newline (level + 1) ++ quote name ++ ':' :: ' ' :: layout (level + 1) value ++
      newline level ++ ['\x7d']
  | (name, value) :: members =>
    newline (level + 1) ++ quote name ++ ':' :: ' ' :: layout (level + 1) value ++
      ',' :: layoutMembers level members

end

/-- A value over several lines. -/
def pretty (json : Json) : Text :=
  layout 0 json

end Marginalia.Json
