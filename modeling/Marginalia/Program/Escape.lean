import Marginalia.Program.Basic

/-! # Escapes and quotes

Some bytes are written with a backslash: as a letter, or as three digits in base eight.  Messages
show the values and names that they speak of in quotes, with such escapes in them.
-/
namespace Marginalia.Program

open Text

/-- Whether a byte is the character. -/
def isByteOf (c : Char) (b : UInt8) : Bool :=
  b = c.toUInt8

/-- Whether a byte is a character that can be seen, or the blank. -/
def isPrintable (b : UInt8) : Bool :=
  0x20 ≤ b && b ≤ 0x7E

/-- The bytes that a letter stands for behind a backslash. -/
def letterEscapes : List (Char × UInt8) :=
  [('\\', 0x5C), ('a', 0x07), ('b', 0x08), ('f', 0x0C), ('n', 0x0A), ('r', 0x0D), ('t', 0x09),
   ('v', 0x0B)]

/-- The byte that a letter stands for behind a backslash. -/
def escapeByte? (letter : UInt8) : Option UInt8 :=
  (letterEscapes.find? fun escape => isByteOf escape.1 letter).map Prod.snd

/-- The digits in base eight at the front of bytes, at most three, and their value. -/
def octal (rest : Bytes) : Nat × Nat :=
  let digits := (rest.take 3).takeWhile fun b => 0x30 ≤ b && b ≤ 0x37
  (digits.length, digits.foldl (fun value b => value * 8 + (b.toNat - 0x30)) 0)

/-- A byte in three digits in base eight behind a backslash. -/
def octalEscape (b : UInt8) : Text :=
  '\\' :: [b / 64, b / 8 % 8, b % 8].map fun digit => Char.ofNat (digit.toNat + '0'.toNat)

/-- A byte as the escape with a letter, if there is one, or else with digits. -/
def escapeOf (b : UInt8) : Text :=
  match letterEscapes.find? fun escape => escape.2 = b with
  | some (letter, _) => ['\\', letter]
  | none => octalEscape b

/-- A byte as it is, or as an escape if it cannot be seen. -/
def visible (b : UInt8) : Text :=
  if isPrintable b then [Char.ofNat b.toNat] else octalEscape b

/-- A value in quotes. -/
def quoted (value : Bytes) : String :=
  let content := value.flatMap fun b =>
    if isByteOf '\'' b then ['\\', '\'']
    else if isPrintable b && !isByteOf '\\' b then [Char.ofNat b.toNat]
    else escapeOf b
  String.ofList (['\''] ++ content ++ ['\''])

/-- The bytes that have a meaning of their own in scripts. -/
def scriptSigns : Bytes :=
  bytes " !\"$&()*;<=>[^\x60|?\\'"

/-- Whether a name has to be quoted. -/
def needsQuotes (name : Bytes) : Bool :=
  name.isEmpty || name.any (fun b => !isPrintable b || scriptSigns.contains b) ||
    name.head?.any (fun b => isByteOf '#' b || isByteOf '~' b) ||
    name = bytes "\x7b" || name = bytes "\x7d"

/-- Whether double quotes keep all characters of a name as they are. -/
def isPlainInQuotes (name : Bytes) : Bool :=
  name.all fun b =>
    isPrintable b && (!scriptSigns.contains b || isByteOf ' ' b || isByteOf '\'' b) &&
      !(bytes "\x7b\x7d#~").contains b

/-- The bytes of a name between single quotes; escapes stand in quotes of their own, and `isEscape`
tells whether such quotes are open. -/
def inSingleQuotes (isEscape : Bool) : Bytes → Text
  | [] => ['\'']
  | b :: rest =>
    if isPrintable b then
      (if isEscape then ['\'', '\''] else []) ++
        (if isByteOf '\'' b then ['\'', '\\', '\'', '\''] else [Char.ofNat b.toNat]) ++
        inSingleQuotes false rest
    else (if isEscape then [] else ['\'', '$', '\'']) ++ escapeOf b ++ inSingleQuotes true rest

/-- A name in the quotes that keep it in one piece in a script. -/
def quotedName (name : Bytes) : String :=
  if name.any (isByteOf '\'') && isPlainInQuotes name then "\"" ++ textOf name ++ "\""
  else String.ofList ('\'' :: inSingleQuotes false name)

/-- A name, in quotes if it has to be quoted. -/
def namedAs (name : Bytes) : String :=
  if needsQuotes name then quotedName name else textOf name

end Marginalia.Program
