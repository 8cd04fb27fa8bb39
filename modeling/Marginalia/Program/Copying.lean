import Marginalia.Program.Source
import Marginalia.Program.Switch

/-! # Copying

The program `cat` passes on what its operands name.  Options number the lines, show their ends, or
show bytes that cannot be seen.
-/
namespace Marginalia.Program

open Text

/-- How bytes are passed on. -/
structure Display where
  numbersLines : Bool
  /-- Whether only lines that are not empty are numbered. -/
  numbersText : Bool
  /-- Whether of empty lines that follow each other only one is passed on. -/
  isSqueezed : Bool
  showsEnds : Bool
  showsTabs : Bool
  showsControls : Bool

namespace Display

/-- Bytes are passed on as they are. -/
def plain : Display :=
  ⟨false, false, false, false, false, false⟩

/-- The options. -/
def switches : List (Switch (Display → Display)) :=
  [⟨['b'], ["number-nonblank"], .plain fun display => { display with numbersText := true }⟩,
   ⟨['n'], ["number"], .plain fun display => { display with numbersLines := true }⟩,
   ⟨['s'], ["squeeze-blank"], .plain fun display => { display with isSqueezed := true }⟩,
   ⟨['v'], ["show-nonprinting"], .plain fun display => { display with showsControls := true }⟩,
   ⟨['E'], ["show-ends"], .plain fun display => { display with showsEnds := true }⟩,
   ⟨['T'], ["show-tabs"], .plain fun display => { display with showsTabs := true }⟩,
   ⟨['A'], ["show-all"], .plain fun display =>
      { display with showsControls := true, showsEnds := true, showsTabs := true }⟩,
   ⟨['e'], [], .plain fun display => { display with showsControls := true, showsEnds := true }⟩,
   ⟨['t'], [], .plain fun display => { display with showsControls := true, showsTabs := true }⟩,
   ⟨['u'], [], .plain id⟩]

/-- Whether bytes are passed on as they are. -/
def isPlain (display : Display) : Bool :=
  !(display.numbersLines || display.numbersText || display.isSqueezed || display.showsEnds ||
    display.showsTabs || display.showsControls)

/-- A byte of a line as it is shown. -/
def appearance (display : Display) (b : UInt8) : Bytes :=
  let control := fun b : UInt8 => [0x5E, b ^^^ 0x40]
  if b = 0x09 then if display.showsTabs then control b else [b]
  else if !display.showsControls then [b]
  else
    let low := b &&& 0x7F
    (if b = low then [] else bytes "M-") ++ (if isPrintable low then [low] else control low)

end Display

/-- The number of a line, and what separates it from the line. -/
def lineNumber (number : Nat) : Bytes :=
  Utf8.encode (List.replicate (6 - (decimal number).length) ' ' ++ decimal number) ++ [0x09]

/-- How far copying has come: the number of the last line that has one, and at the start of a line,
how many empty lines stand before it. -/
structure CopyPlace where
  number : Nat
  emptyLines : Option Nat

/-- Passes on bytes; `front` holds what was written, latest first. -/
def Display.copy (display : Display) (place : CopyPlace) (front : Bytes) :
    Bytes → CopyPlace × Bytes
  | [] => (place, front)
  | b :: rest =>
    if b = lineFeed then
      let isEmpty := place.emptyLines.isSome
      let emptyLines := place.emptyLines.map (· + 1) |>.getD 0
      if display.isSqueezed && emptyLines ≥ 2 then display.copy place front rest
      else
        let isNumbered := isEmpty && display.numbersLines && !display.numbersText
        let number := if isNumbered then place.number + 1 else place.number
        let shown := (if isNumbered then lineNumber number else []) ++
          (if display.showsEnds then [0x24] else []) ++ [b]
        display.copy ⟨number, some emptyLines⟩ (shown.reverse ++ front) rest
    else
      let isNumbered := place.emptyLines.isSome && (display.numbersLines || display.numbersText)
      let number := if isNumbered then place.number + 1 else place.number
      let isReturn := b = 0x0D && display.showsEnds && rest.head? = some lineFeed
      let shown := (if isNumbered then lineNumber number else []) ++
        (if isReturn then bytes "^M" else display.appearance b)
      display.copy ⟨number, none⟩ (shown.reverse ++ front) rest

/-- One run of copying: what was written latest first, what is left of the input, how far it has
come, and whether all operands were found and ended. -/
structure Copying where
  written : List (Channel × Bytes)
  unread : Bytes
  place : CopyPlace
  isComplete : Bool
  isEndless : Bool

/-- Copies what one operand names. -/
def Copying.next (display : Display) (copying : Copying) (operand : Bytes) : Copying :=
  match source? (textOf operand) copying.unread with
  | some (.finite content, unread) =>
    if display.isPlain then
      { copying with written := (.output, content) :: copying.written, unread }
    else
      let (place, front) := display.copy copying.place [] content
      { copying with written := (.output, front.reverse) :: copying.written, unread, place }
  | some (.zeros, _) =>
    { copying with
      written := (.output, List.replicate endlessLength 0) :: copying.written
      isEndless := true }
  | none =>
    let message := "cat: " ++ namedAs operand ++ ": " ++ unreadable (textOf operand) ++ "\n"
    { copying with
      written := (.errors, bytes message) :: copying.written
      isComplete := false }

/-- Writes what the operands name one after another; without operands, the input. -/
def cat : Run := fun arguments input =>
  match settled Display.switches true Display.plain arguments with
  | .error fault => .failure 1 (fault.report "cat") input
  | .ok (display, operands) =>
    let copying := (if operands.isEmpty then [bytes "-"] else operands).foldl (Copying.next display)
      ⟨[], input, ⟨0, some 0⟩, true, false⟩
    { written := copying.written.reverse
      unread := copying.unread
      ending := .exited (if copying.isComplete then 0 else 1)
      duration := if copying.isEndless then none else some 0 }

end Marginalia.Program
