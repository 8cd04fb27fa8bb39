import Marginalia.Program.Editing.Editor
import Marginalia.Program.Editing.Parser
import Marginalia.Program.Source
import Marginalia.Program.Switch

/-! # The stream editor

The program `sed` reads lines, applies a script to each, and writes them.  The script is the first
operand, unless options give it in parts; the other operands name what is read instead of the
input.
-/
namespace Marginalia.Program

open Text

/-- The parts of bytes between delimiters, each with whether a delimiter follows it. -/
def linesOf (delimiter : UInt8) (content : Bytes) : List EditedLine :=
  let (line, lines) := content.foldl (fun (line, lines) b =>
    if b = delimiter then ([], ⟨line.reverse, true⟩ :: lines) else (b :: line, lines))
    (([], []) : Bytes × List EditedLine)
  (if line.isEmpty then lines else ⟨line.reverse, false⟩ :: lines).reverse

/-- What the options ask for. -/
structure EditingRequest where
  scripts : List Bytes
  isExtended : Bool
  isQuiet : Bool
  isByNull : Bool
  width : Nat

namespace EditingRequest

/-- The options. -/
def switches : List (Switch (EditingRequest → EditingRequest)) :=
  [⟨['b'], ["binary"], .plain id⟩,
   ⟨['r', 'E'], ["regexp-extended"], .plain fun request => { request with isExtended := true }⟩,
   ⟨['e'], ["expression"], .valued fun script =>
      .ok fun request => { request with scripts := request.scripts ++ [script] }⟩,
   ⟨['f'], ["file"], .valued fun name =>
      match source? (textOf name) [] with
      | some (.finite script, _) =>
        .ok fun request => { request with scripts := request.scripts ++ [script] }
      | _ => .error ("couldn't open file " ++ textOf name ++ ": " ++ notFound)⟩,
   ⟨['l'], ["line-length"], .valued fun value =>
      let width := (digitsValue? 10 (textOf value).toList).getD 1
      .ok fun request => { request with width }⟩,
   ⟨['z'], ["null-data", "zero-terminated"],
      .plain fun request => { request with isByNull := true }⟩,
   ⟨['n'], ["quiet", "silent"], .plain fun request => { request with isQuiet := true }⟩,
   ⟨[], ["posix"], .plain id⟩, ⟨[], ["sandbox"], .plain id⟩,
   ⟨['s'], ["separate"], .plain id⟩, ⟨['u'], ["unbuffered"], .plain id⟩,
   ⟨[], ["follow-symlinks"], .plain id⟩]

end EditingRequest

/-- What is told of a fault. -/
def PlacedFault.report (placed : PlacedFault) : String :=
  if placed.fault.hasNoPlace then "sed: " ++ placed.fault.message
  else
    "sed: -e expression #" ++ String.ofList (decimal placed.part) ++ ", char " ++
      String.ofList (decimal placed.place) ++ ": " ++ placed.fault.message

/-- The code with which a fault ends the program. -/
def EditingFault.code : EditingFault → Nat
  | unknownLabel _ => 4
  | _ => 1

/-- What is read before editing: the lines, what is left of the input, what is told of operands that
cannot be read, latest first, the code for those, and whether there is no end to it. -/
structure EditingSource where
  lines : List EditedLine
  unread : Bytes
  faults : List String
  code : Nat
  isEndless : Bool

/-- Adds what an operand names; nothing is read behind one that cannot be read. -/
def EditingSource.add (delimiter : UInt8) (source : EditingSource) (operand : String) :
    EditingSource :=
  if source.code = 4 then source
  else
    match source? operand source.unread with
    | none =>
      let (fault, code) := if unreadable operand = notFound then
          ("can't read " ++ operand ++ ": " ++ notFound, 2)
        else ("read error on " ++ operand ++ ": " ++ unreadable operand, 4)
      { source with faults := ("sed: " ++ fault) :: source.faults, code }
    | some (.zeros, _) => { source with isEndless := true }
    | some (.finite content, unread) =>
      let lines := linesOf delimiter content
      let before := if lines.isEmpty then source.lines
        else source.lines.map fun line => { line with isEnded := true }
      { source with lines := before ++ lines, unread }

/-- The size of the blocks in which the input is read. -/
def editingBlockSize : Nat := 4096

/-- What is left of the input after so many lines and the next byte have been read in blocks. -/
def unreadAfter (lines : List EditedLine) (input : Bytes) : Bytes :=
  let length := lines.foldl (fun length line => length + line.content.length + 1) 0
  input.drop ((length + editingBlockSize) / editingBlockSize * editingBlockSize)

/-- Whether a script begins with the line that keeps lines from being written. -/
def isQuietScript (script : Text) : Bool :=
  script = ['#', 'n'] || ['#', 'n', '\n'].isPrefixOf script

/-- Edits lines. -/
def edited (request : EditingRequest) (scripts : List Bytes) (operands : List String)
    (input : Bytes) : Outcome :=
  let parts := scripts.map fun script => script.map fun b => Char.ofNat b.toNat
  match editsOf request.isExtended parts with
  | .error placed => .failure placed.fault.code placed.report input
  | .ok edits =>
    let mode : EditingMode :=
      { edits
        delimiter := if request.isByNull then 0 else lineFeed
        isQuiet := request.isQuiet || parts.head?.any isQuietScript
        width := request.width }
    let source := (if operands.isEmpty then ["-"] else operands).foldl
      (EditingSource.add mode.delimiter) ⟨[], input, [], 0, false⟩
    let size := source.lines.foldl (fun size line => size + line.content.length + 2)
      scripts.flatten.length
    match source.isEndless, Editor.start mode source.lines ((size + 2000) * (edits.length + 2)) with
    | true, _ | _, .endless => { Outcome.success [] source.unread with duration := none }
    | _, .failed fault =>
      .failure fault.code (PlacedFault.report ⟨fault, parts.length, 0⟩) source.unread
    | _, .done editor =>
      let faults := source.faults.reverse.map fun fault =>
        (Channel.errors, bytes (fault ++ "\n"))
      let code := if source.code = 4 || editor.code = 0 then source.code else editor.code % 256
      let read := source.lines.take (source.lines.length - editor.rest.length)
      { written := faults ++ editor.written.reverse
        unread := if editor.rest.isEmpty then source.unread else unreadAfter read input
        ending := .exited code
        duration := some 0 }

/-- Edits the input line by line. -/
def sed : Run := fun arguments input =>
  match settled EditingRequest.switches true ⟨[], false, false, false, 70⟩ arguments with
  | .error (.wrongValue reason) => .failure 4 ("sed: " ++ reason) input
  | .error fault => .failure 1 ("sed: " ++ fault.message ++ "\n" ++ usage) input
  | .ok (request, operands) =>
    if !request.scripts.isEmpty then
      edited request request.scripts (operands.map textOf) input
    else
      match operands with
      | [] => .failure 1 usage input
      | script :: operands => edited request [script] (operands.map textOf) input
where
  /-- What is told of arguments that make no sense. -/
  usage : String := "Usage: sed [OPTION]... \x7bscript-only-if-no-other-script\x7d [input-file]..."

end Marginalia.Program
