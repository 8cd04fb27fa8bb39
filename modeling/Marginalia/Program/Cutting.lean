import Marginalia.Program.Source
import Marginalia.Program.Switch

/-! # Cutting

The program `head` passes on the front of what its operands name: so many lines or bytes, or all but
so many at the end.
-/
namespace Marginalia.Program

open Text

/-! ## Amounts -/

/-- How many an amount counts by the unit behind its digits, if that is one. -/
def unitSize? (unit : Text) : Option Nat :=
  let powers := fun base : Nat => fun letter : Char =>
    (["kK", "mM", "G", "T", "P", "E", "Z", "Y", "R", "Q"].findIdx? fun letters =>
      letters.toList.contains letter).map fun i => Nat.pow base (i + 1)
  match unit with
  | [] => some 1
  | ['b'] => some 512
  | [letter] => powers 1024 letter
  | [letter, 'B'] | [letter, 'D'] => powers 1000 letter
  | [letter, 'i', 'B'] => powers 1024 letter
  | _ => none

/-- Reads an amount of what is counted. -/
def readAmount (counted : String) (value : Bytes) : Except String Nat :=
  let message := "invalid number of " ++ counted ++ ": " ++ quoted value
  let text := (textOf value).toList.dropWhile fun c =>
    [' ', '\t', '\n', '\x0b', '\x0c', '\r'].contains c
  let text := match text with
    | '+' :: text => text
    | _ => text
  let digits := text.takeWhile Char.isDigit
  let unit := text.drop digits.length
  match digitsValue? 10 digits, unitSize? unit with
  | none, some size =>
    if unit.isEmpty || text.length < value.length then .error message else .ok size
  | some count, some size =>
    if count * size < wordBound then .ok (count * size)
    else .error (message ++ ": Value too large for defined data type")
  | _, none => .error message

/-! ## Options -/

/-- Which part is passed on. -/
inductive Extent where
  | lines (count : Nat)
  | bytes (count : Nat)
  | allLinesBut (count : Nat)
  | allBytesBut (count : Nat)

/-- What is cut, and how: whether names are shown in front of it, where that does not depend on the
number of operands, and which byte ends lines. -/
structure Cutting where
  extent : Extent
  showsNames : Option Bool
  delimiter : UInt8

/-- The first ten lines. -/
def Cutting.usual : Cutting :=
  ⟨.lines 10, none, lineFeed⟩

/-- Reads how many lines to pass on, or behind a dash, how many to leave out. -/
def readLines (value : Bytes) : Except String Extent :=
  match value with
  | 0x2D :: value => (readAmount "lines" value).map .allLinesBut
  | value => (readAmount "lines" value).map .lines

/-- Reads how many bytes to pass on, or behind a dash, how many to leave out. -/
def readBytes (value : Bytes) : Except String Extent :=
  match value with
  | 0x2D :: value => (readAmount "bytes" value).map .allBytesBut
  | value => (readAmount "bytes" value).map .bytes

/-- An option that sets the extent. -/
def extentSwitch (letter : Char) (name : String) (read : Bytes → Except String Extent) :
    Switch (Cutting → Cutting) :=
  ⟨[letter], [name], .valued fun value => do
    let extent ← read value
    return fun cutting => { cutting with extent }⟩

/-- The options. -/
def Cutting.switches : List (Switch (Cutting → Cutting)) :=
  [extentSwitch 'c' "bytes" readBytes, extentSwitch 'n' "lines" readLines,
   ⟨['q'], ["quiet", "silent"], .plain fun cutting => { cutting with showsNames := some false }⟩,
   ⟨['v'], ["verbose"], .plain fun cutting => { cutting with showsNames := some true }⟩,
   ⟨['z'], ["zero-terminated"], .plain fun cutting => { cutting with delimiter := 0 }⟩]

/-- Reads the letters behind the digits of the short form of an option. -/
def readTrailing (cutting : Cutting) (digits : Bytes) (isBytes : Bool) (unit : Bytes) :
    Bytes → Except ArgumentFault Cutting
  | [] => do
    let value := digits ++ unit
    let extent ← ((if isBytes then readBytes else readLines) value).mapError .wrongValue
    return { cutting with extent }
  | letter :: letters =>
    match Char.ofNat letter.toNat with
    | 'c' => readTrailing cutting digits true [] letters
    | 'b' | 'k' | 'm' => readTrailing cutting digits true [letter] letters
    | 'l' => readTrailing cutting digits false unit letters
    | 'q' => readTrailing { cutting with showsNames := some false } digits isBytes unit letters
    | 'v' => readTrailing { cutting with showsNames := some true } digits isBytes unit letters
    | 'z' => readTrailing { cutting with delimiter := 0 } digits isBytes unit letters
    | _ => .error (.unknownLetter letter)

/-- Whether a byte is a digit. -/
def isDigitByte (b : UInt8) : Bool :=
  0x30 ≤ b && b ≤ 0x39

/-- Reads the arguments, of which the first may be the short form of an option: the number of lines
behind a dash. -/
def Cutting.ofArguments (arguments : List Bytes) : Except ArgumentFault (Cutting × List Bytes) :=
  match arguments with
  | (0x2D :: b :: more) :: rest =>
    if isDigitByte b then do
      let digits := (b :: more).takeWhile isDigitByte
      let cutting ← readTrailing usual digits false [] ((b :: more).drop digits.length)
      settled switches true cutting rest
    else settled switches true usual arguments
  | _ => settled switches true usual arguments

/-- What is told of a fault; a digit among the letters is thought to be the short form. -/
def cuttingReport (arguments : List Bytes) (fault : ArgumentFault) : String :=
  let isShort := arguments.head?.any fun argument =>
    argument.head? = some 0x2D && (argument.drop 1).head?.any isDigitByte
  match fault with
  | .unknownLetter letter =>
    if isDigitByte letter || isShort && arguments.head?.any (List.contains · letter) then
      callMessage "head" ("invalid trailing option -- " ++ textOf [letter])
    else fault.report "head"
  | _ => fault.report "head"

/-! ## Cutting -/

/-- The first lines of bytes; `front` holds the bytes before, latest first. -/
def firstLines (delimiter : UInt8) (front : Bytes) : Nat → Bytes → Bytes
  | _, [] => front.reverse
  | 0, _ => front.reverse
  | count + 1, b :: rest =>
    if b = delimiter then firstLines delimiter (b :: front) count rest
    else firstLines delimiter (b :: front) (count + 1) rest
termination_by _ rest => rest.length

/-- Lines are looked for in blocks of this many bytes. -/
def blockSize : Nat := 8192

/-- What of the content is read to find the given lines: whole blocks. -/
def blocksFor (lines : Bytes) : Nat :=
  (lines.length + blockSize - 1) / blockSize * blockSize

/-- The number of lines, of which the last need not be ended. -/
def lineCount (delimiter : UInt8) (content : Bytes) : Nat :=
  content.count delimiter + (if content.getLast?.all (· = delimiter) then 0 else 1)

/-- What is passed on of a content, and how much of it is read. -/
def Cutting.cut (cutting : Cutting) (content : Bytes) : Bytes × Nat :=
  match cutting.extent with
  | .bytes count => (content.take count, count)
  | .lines count =>
    let lines := firstLines cutting.delimiter [] count content
    (lines, blocksFor lines)
  | .allBytesBut count => (content.take (content.length - count), content.length)
  | .allLinesBut count =>
    let kept := lineCount cutting.delimiter content - count
    (firstLines cutting.delimiter [] kept content, content.length)

/-- One run of cutting: what was written latest first, what is left of the input, whether a name has
been shown, and whether all operands were found and ended. -/
structure CutState where
  written : List (Channel × Bytes)
  unread : Bytes
  isFirst : Bool
  isComplete : Bool
  isEndless : Bool

/-- Cuts what one operand names. -/
def Cutting.next (cutting : Cutting) (showsNames : Bool) (state : CutState) (operand : Bytes) :
    CutState :=
  let name := if operand = bytes "-" then "standard input" else textOf operand
  let header := if showsNames then
      bytes ((if state.isFirst then "" else "\n") ++ "==> " ++ name ++ " <==\n")
    else []
  let shown := { state with
    written := (.output, header) :: state.written
    isFirst := state.isFirst && !showsNames }
  let failed := fun (state : CutState) (message : String) =>
    { state with
      written := (.errors, bytes ("head: " ++ message ++ "\n")) :: state.written
      isComplete := false }
  match source? (textOf operand) state.unread, cutting.extent with
  | some (.zeros, _), .bytes count =>
    { shown with written := (.output, List.replicate count 0) :: shown.written }
  | some (.zeros, _), .lines count =>
    { shown with isEndless := shown.isEndless || 0 < count && cutting.delimiter ≠ 0 }
  | some (.zeros, _), _ => { shown with isEndless := true }
  | some (.finite content, unread), _ =>
    let (front, length) := cutting.cut content
    { shown with
      written := (.output, front) :: shown.written
      unread := content.drop length ++ unread }
  | none, _ =>
    if unreadable (textOf operand) = notFound then
      failed state ("cannot open " ++ quotedName operand ++ " for reading: " ++ notFound)
    else
      failed shown ("error reading " ++ quotedName operand ++ ": " ++
        unreadable (textOf operand))

/-- Writes the first ten lines of what the operands name, or as much as the options tell. -/
def head : Run := fun arguments input =>
  match Cutting.ofArguments arguments with
  | .error fault => .failure 1 (cuttingReport arguments fault) input
  | .ok (cutting, operands) =>
    let showsNames := cutting.showsNames.getD (operands.length > 1)
    let state := (if operands.isEmpty then [bytes "-"] else operands).foldl
      (cutting.next showsNames) ⟨[], input, true, true, false⟩
    { written := state.written.reverse
      unread := state.unread
      ending := .exited (if state.isComplete then 0 else 1)
      duration := if state.isEndless then none else some 0 }

end Marginalia.Program
