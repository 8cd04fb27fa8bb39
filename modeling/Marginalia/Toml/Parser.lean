import Marginalia.Text.FloatRange
import Marginalia.Toml.Basic

/-! # Reading TOML

A reader for TOML texts.  Every function reads from the front of a text and gives what is left.
Values nest to a fixed depth; where a list of things is read, `fuel` bounds their number, and the
length of the text is enough.
-/
namespace Marginalia.Toml

open Text

/-- What follows spaces and tabs. -/
def skipSpace (text : Text) : Text :=
  text.dropWhile fun c => c == ' ' || c == '\t'

/-- Whether a character can stand in comments and strings: a tab, or no control character. -/
def isPlain (c : Char) : Bool :=
  c == '\t' || (0x20 ≤ c.toNat && c.toNat != 0x7F)

/-- What follows a line end at the front of a text. -/
def readNewline? : Text → Option Text
  | '\n' :: rest => some rest
  | '\r' :: '\n' :: rest => some rest
  | _ => none

/-- What follows a comment, if there is one. -/
def skipComment : Text → Text
  | '#' :: rest => rest.dropWhile isPlain
  | text => text

/-- What follows the rest of a line that holds nothing more: spaces, a comment and the line
end. -/
def endLine? (text : Text) : Option Text :=
  match skipComment (skipSpace text) with
  | [] => some []
  | rest => readNewline? rest

/-- What follows spaces, line ends and comments. -/
def skipLines : Nat → Text → Text
  | 0, text => text
  | fuel + 1, text =>
    match skipComment (skipSpace text) with
    | [] => []
    | rest =>
      match readNewline? rest with
      | some rest => skipLines fuel rest
      | none => rest

/-- What follows spaces and line ends. -/
def skipBreaks : Text → Text
  | ' ' :: rest => skipBreaks rest
  | '\t' :: rest => skipBreaks rest
  | '\n' :: rest => skipBreaks rest
  | '\r' :: '\n' :: rest => skipBreaks rest
  | text => text

/-- The character of an escape with the given number of hexadecimal digits. -/
def codeEscape? (length : Nat) (text : Text) : Option Char := do
  guard ((text.take length).length = length)
  scalar? (← digitsValue? 16 (text.take length))

/-- The character of an escape after its backslash, and the number of characters it takes. -/
def escape? : Text → Option (Char × Nat)
  | 'b' :: _ => some ('\x08', 1)
  | 't' :: _ => some ('\t', 1)
  | 'n' :: _ => some ('\n', 1)
  | 'f' :: _ => some ('\x0c', 1)
  | 'r' :: _ => some ('\r', 1)
  | '"' :: _ => some ('"', 1)
  | '\\' :: _ => some ('\\', 1)
  | 'u' :: rest => (codeEscape? 4 rest).map (·, 5)
  | 'U' :: rest => (codeEscape? 8 rest).map (·, 9)
  | _ => none

/-- Reads a string of one line after its opening quote. -/
def readBasic? (text : Text) : Option (Text × Text) :=
  match text with
  | [] => none
  | '"' :: rest => some ([], rest)
  | '\\' :: rest =>
    match escape? rest with
    | some (c, length) =>
      (readBasic? (rest.drop length)).map fun (value, left) => (c :: value, left)
    | none => none
  | c :: rest =>
    if isPlain c then (readBasic? rest).map fun (value, left) => (c :: value, left) else none
termination_by text.length
decreasing_by all_goals simp; try omega

/-- Reads a string of one line without escapes after its opening quote. -/
def readLiteral? : Text → Option (Text × Text)
  | [] => none
  | c :: rest =>
    if c = '\'' then some ([], rest)
    else if isPlain c then (readLiteral? rest).map fun (value, left) => (c :: value, left)
    else none

/-- The quotes at the end of a string of several lines: three close it, and up to two more
before them belong to it. -/
def closeQuotes? (quote : Char) (text : Text) : Option (Text × Text) :=
  let count := (text.takeWhile (· = quote)).length
  if count < 3 then none
  else
    let kept := min (count - 3) 2
    some (List.replicate kept quote, text.drop (kept + 3))

/-- What follows the escape of a line end, after its backslash: the white space up to the next
character. -/
def lineEscape? (text : Text) : Option Text :=
  (readNewline? (skipSpace text)).map skipBreaks

/-- Reads a string of several lines after its opening quotes and the line end right after them;
`fuel` bounds the number of characters. -/
def readLines? (quote : Char) : Nat → Text → Option (Text × Text)
  | 0, _ => none
  | fuel + 1, text =>
    match closeQuotes? quote text with
    | some closed => some closed
    | none =>
      match readNewline? text with
      | some rest => (readLines? quote fuel rest).map fun (value, left) => ('\n' :: value, left)
      | none =>
        match text with
        | [] => none
        | c :: rest =>
          if c = '\\' ∧ quote = '"' then
            match lineEscape? rest with
            | some rest => readLines? quote fuel rest
            | none =>
              match escape? rest with
              | some (c, length) =>
                (readLines? quote fuel (rest.drop length)).map fun (value, left) =>
                  (c :: value, left)
              | none => none
          else if isPlain c then
            (readLines? quote fuel rest).map fun (value, left) => (c :: value, left)
          else none

/-- Reads a string of several lines after its opening quotes. -/
def readBlock? (quote : Char) (text : Text) : Option (Text × Text) :=
  readLines? quote (text.length + 1) ((readNewline? text).getD text)

/-- Whether a character can stand in a bare key. -/
def isKeyChar (c : Char) : Bool :=
  c.isAlphanum || c == '_' || c == '-'

/-- Reads a key of one name. -/
def readName? : Text → Option (String × Text)
  | '"' :: rest => (readBasic? rest).map fun (name, left) => (String.ofList name, left)
  | '\'' :: rest => (readLiteral? rest).map fun (name, left) => (String.ofList name, left)
  | text =>
    let name := text.takeWhile isKeyChar
    if name.isEmpty then none else some (String.ofList name, text.dropWhile isKeyChar)

/-- Reads a dotted key of at most `count` names: the names before the last one, and the last
one. -/
def readNames? : Nat → Text → Option (List String × String × Text)
  | 0, _ => none
  | count + 1, text =>
    match readName? (skipSpace text) with
    | none => none
    | some (name, rest) =>
      match skipSpace rest with
      | '.' :: rest =>
        (readNames? count rest).map fun (path, last, left) => (name :: path, last, left)
      | rest => some ([], name, rest)

/-- Tables and values nest at most this many levels. -/
def maxDepth : Nat := 79

/-- Reads a dotted key. -/
def readKey? (text : Text) : Option (List String × String × Text) :=
  readNames? maxDepth text

/-- Reads digits with single underscores between them. -/
def readDigits? (isDigit : Char → Bool) (text : Text) : Option (Text × Text) :=
  let run := text.takeWhile fun c => isDigit c || c == '_'
  let groups := splitOn '_' run
  if groups.all fun group => !group.isEmpty then
    some (groups.flatten, text.drop run.length)
  else none

/-- Reads a sign, if there is one, and tells whether it is a minus. -/
def readSign : Text → Bool × Text
  | '-' :: rest => (true, rest)
  | '+' :: rest => (false, rest)
  | text => (false, text)

/-- Reads the digits of a decimal number: a zero stands alone. -/
def readDecimal? : Text → Option (Text × Text)
  | '0' :: rest => some (['0'], rest)
  | text => readDigits? Char.isDigit text

/-- The number of digits with a sign, if it is in the range of 64 bits. -/
def signed? (isNegative : Bool) (n : Nat) : Option Toml :=
  if isNegative then if n ≤ signedBound then some (.integer (-(n : Int))) else none
  else if n < signedBound then some (.integer n) else none

/-- Reads a number in digits of the given base. -/
def readBased? (base : Nat) (text : Text) : Option (Toml × Text) := do
  let (digits, rest) ← readDigits? (fun c => (digitValue? base c).isSome) text
  let n ← digitsValue? base digits
  return (← signed? false n, rest)

/-- Reads a fraction, if there is one, and gives its digits. -/
def readFraction? : Text → Option (Option Text × Text)
  | '.' :: rest => (readDigits? Char.isDigit rest).map fun (digits, rest) => (some digits, rest)
  | text => some (none, text)

/-- Reads an exponent, if there is one. -/
def readExponent? : Text → Option (Option Int × Text)
  | c :: rest =>
    if c = 'e' ∨ c = 'E' then do
      let (isNegative, rest) := readSign rest
      let (digits, rest) ← readDigits? Char.isDigit rest
      let n ← digitsValue? 10 digits
      return (some (if isNegative then -(n : Int) else n), rest)
    else some (none, c :: rest)
  | [] => some (none, [])

/-- The float of a sign, digits before and after the point, and an exponent.  A positive one must
be in range; a negative one that is not stands for minus infinity. -/
def float? (isNegative : Bool) (digits fraction : Text) (exponent : Int) : Option Toml :=
  if !isNegative && isBeyondFloats (digits ++ fraction) (exponent - fraction.length) then none
  else some .float

/-- Reads an integer or a float. -/
def readNumber? (text : Text) : Option (Toml × Text) :=
  match text with
  | '0' :: 'x' :: rest => readBased? 16 rest
  | '0' :: 'o' :: rest => readBased? 8 rest
  | '0' :: 'b' :: rest => readBased? 2 rest
  | _ =>
    let (isNegative, text) := readSign text
    match text with
    | 'i' :: 'n' :: 'f' :: rest => some (.float, rest)
    | 'n' :: 'a' :: 'n' :: rest => some (.float, rest)
    | _ => do
      let (digits, text) ← readDecimal? text
      let (fraction, text) ← readFraction? text
      let (exponent, text) ← readExponent? text
      if fraction.isNone && exponent.isNone then
        return (← signed? isNegative (← digitsValue? 10 digits), text)
      else return (← float? isNegative digits (fraction.getD []) (exponent.getD 0), text)

/-- Reads a number of exactly the given number of digits. -/
def readFixed? (width : Nat) (text : Text) : Option (Nat × Text) := do
  let digits := text.take width
  guard (digits.length = width && digits.all Char.isDigit)
  return (← digitsValue? 10 digits, text.drop width)

/-- What follows a character at the front of a text. -/
def readChar? (c : Char) : Text → Option Text
  | d :: rest => if d = c then some rest else none
  | [] => none

/-- The number of days of a month. -/
def daysInMonth (year month : Nat) : Nat :=
  if month = 2 then
    if year % 4 = 0 ∧ (year % 100 ≠ 0 ∨ year % 400 = 0) then 29 else 28
  else if month = 4 ∨ month = 6 ∨ month = 9 ∨ month = 11 then 30
  else 31

/-- What follows a date. -/
def readDate? (text : Text) : Option Text := do
  let (year, text) ← readFixed? 4 text
  let (month, text) ← readFixed? 2 (← readChar? '-' text)
  let (day, text) ← readFixed? 2 (← readChar? '-' text)
  guard (1 ≤ month && month ≤ 12 && 1 ≤ day && day ≤ daysInMonth year month)
  return text

/-- What follows a time of day. -/
def readTime? (text : Text) : Option Text := do
  let (hour, text) ← readFixed? 2 text
  let (minute, text) ← readFixed? 2 (← readChar? ':' text)
  let (second, text) ← readFixed? 2 (← readChar? ':' text)
  guard (hour < 24 && minute < 60 && second ≤ 60)
  match text with
  | '.' :: rest =>
    guard (rest.head?.any Char.isDigit)
    return rest.dropWhile Char.isDigit
  | _ => return text

/-- What follows the offset of a time zone. -/
def readOffset? : Text → Option Text
  | c :: rest =>
    if c = 'Z' ∨ c = 'z' then some rest
    else if c = '+' ∨ c = '-' then do
      let (hour, rest) ← readFixed? 2 rest
      let (minute, rest) ← readFixed? 2 (← readChar? ':' rest)
      guard (hour < 24 && minute < 60)
      return rest
    else none
  | [] => none

/-- What follows a date with an optional time and offset, or a time alone. -/
def afterMoment? (text : Text) : Option Text :=
  match readDate? text with
  | some rest =>
    match rest with
    | c :: time =>
      if c = 'T' ∨ c = 't' ∨ c = ' ' then
        match readTime? time with
        | some rest => some ((readOffset? rest).getD rest)
        | none => some rest
      else some rest
    | [] => some []
  | none => readTime? text

/-- Reads a value that is neither an array nor a table. -/
def readScalar? (text : Text) : Option (Toml × Text) :=
  match text with
  | '"' :: '"' :: '"' :: rest =>
    (readBlock? '"' rest).map fun (value, left) => (.string (String.ofList value), left)
  | '\'' :: '\'' :: '\'' :: rest =>
    (readBlock? '\'' rest).map fun (value, left) => (.string (String.ofList value), left)
  | '"' :: rest =>
    (readBasic? rest).map fun (value, left) => (.string (String.ofList value), left)
  | '\'' :: rest =>
    (readLiteral? rest).map fun (value, left) => (.string (String.ofList value), left)
  | 't' :: 'r' :: 'u' :: 'e' :: rest => some (.bool true, rest)
  | 'f' :: 'a' :: 'l' :: 's' :: 'e' :: rest => some (.bool false, rest)
  | _ =>
    match afterMoment? text with
    | some rest => some (.moment (String.ofList (upTo text rest)), rest)
    | none => readNumber? text

/-- Reads the items of an array after its opening bracket, with a reader for values. -/
def readItems? (value? : Text → Option (Toml × Text)) : Nat → Text → Option (List Toml × Text)
  | 0, _ => none
  | fuel + 1, text =>
    match skipLines text.length text with
    | ']' :: rest => some ([], rest)
    | start =>
      match value? start with
      | none => none
      | some (item, rest) =>
        match skipLines rest.length rest with
        | ',' :: rest =>
          (readItems? value? fuel rest).map fun (items, left) => (item :: items, left)
        | ']' :: rest => some ([item], rest)
        | _ => none

/-- Reads a key and its value. -/
def readPair? (value? : Text → Option (Toml × Text)) (text : Text) :
    Option (List String × String × Toml × Text) := do
  let (path, name, rest) ← readKey? text
  let (value, rest) ← value? (skipSpace (← readChar? '=' rest))
  return (path, name, value, rest)

/-- Reads the members of a table within braces, of which there is at least one, and its closing
brace. -/
def readMembers? (value? : Text → Option (Toml × Text)) :
    Nat → Members → Text → Option (Members × Text)
  | 0, _, _ => none
  | fuel + 1, members, text => do
    let (path, name, value, rest) ← readPair? value? text
    let members ← insert path name value .header members
    match skipSpace rest with
    | ',' :: rest => readMembers? value? fuel members rest
    | '\x7d' :: rest => some (members, rest)
    | _ => none

/-- Reads a value in which arrays and tables nest at most `depth` levels. -/
def readValue? : Nat → Text → Option (Toml × Text)
  | 0, text => readScalar? text
  | depth + 1, text =>
    match text with
    | '[' :: rest =>
      (readItems? (readValue? depth) (rest.length + 1) rest).map fun (items, left) =>
        (.array items, left)
    | '\x7b' :: rest =>
      match skipSpace rest with
      | '\x7d' :: rest => some (.inline [], rest)
      | rest =>
        (readMembers? (readValue? depth) (rest.length + 1) [] rest).map fun (members, left) =>
          (.inline members, left)
    | _ => readScalar? text

/-- A document under way: its members, and the path of the table that the last header opened. -/
structure Document where
  members : Members
  header : List String

namespace Document

/-- Adds a value to the table of the last header. -/
def addPair (document : Document) (path : List String) (name : String) (value : Toml) :
    Option Document := do
  let members ← within false (insert path name value) .header document.members document.header
  return { document with members }

/-- Opens a table. -/
def addHeader (document : Document) (path : List String) (name : String) : Option Document := do
  return ⟨← openTable path name document.members, path ++ [name]⟩

/-- Opens the next table of an array of tables. -/
def addItem (document : Document) (path : List String) (name : String) : Option Document := do
  return ⟨← openItem path name document.members, path ++ [name]⟩

/-- Reads the next line that holds something. -/
def readLine? (document : Document) (text : Text) : Option (Document × Text) :=
  match text with
  | '[' :: '[' :: rest => do
    let (path, name, rest) ← readKey? rest
    let rest ← readChar? ']' (← readChar? ']' rest)
    return (← document.addItem path name, ← endLine? rest)
  | '[' :: rest => do
    let (path, name, rest) ← readKey? rest
    let rest ← readChar? ']' rest
    return (← document.addHeader path name, ← endLine? rest)
  | _ => do
    let (path, name, value, rest) ← readPair? (readValue? maxDepth) text
    return (← document.addPair path name value, ← endLine? rest)

/-- Reads the lines of a document. -/
def readAll? : Nat → Document → Text → Option Document
  | 0, _, _ => none
  | fuel + 1, document, text =>
    match skipLines text.length text with
    | [] => some document
    | rest =>
      match document.readLine? rest with
      | some (document, rest) => readAll? fuel document rest
      | none => none

end Document

/-- The value of a TOML text. -/
def ofText? (text : Text) : Option Toml :=
  let text := match text with
    | '\uFEFF' :: rest => rest
    | _ => text
  (Document.readAll? (text.length + 1) ⟨[], []⟩ text).map fun document =>
    .table .header document.members

end Marginalia.Toml
