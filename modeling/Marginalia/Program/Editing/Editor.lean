import Marginalia.Program.Editing.Basic

/-! # Editing line by line

An editor reads lines one after another and applies the edits of a script to each.  It works on a
text, at first the line that was read, and holds another one aside.  At the end of the script the
text is written, unless the editor is quiet, and then what was put off until then.

`Editor.run` applies the edits that are left for a line and goes on with the next line.
-/
namespace Marginalia.Program

open Text

/-- A text and whether an end of line follows it. -/
structure EditedLine where
  content : Bytes
  isEnded : Bool

/-- A range of lines that an edit is for. -/
inductive RangeState where
  | waiting
  | open
  /-- Open up to a line, and for no line after it. -/
  | openTo (line : Nat)
  /-- Open up to a line, or the first one after it that the edit is tried on. -/
  | openPast (line : Nat)
  | ended
  deriving DecidableEq, Repr

/-- Whether the range has begun and goes on. -/
def RangeState.isOpen : RangeState → Bool
  | waiting | ended => false
  | _ => true

/-- How a script is run. -/
structure EditingMode where
  edits : List Edit
  /-- The byte that ends a line. -/
  delimiter : UInt8
  isQuiet : Bool
  /-- The width of lines that are listed. -/
  width : Nat

/-- The state of an editor. -/
structure Editor where
  space : EditedLine
  held : EditedLine
  /-- The number of the line at hand. -/
  number : Nat
  /-- The lines that are to be read. -/
  rest : List EditedLine
  /-- What was written, latest first. -/
  written : List (Channel × Bytes)
  /-- Whether a line was written whose end is still missing. -/
  isPending : Bool
  /-- What is written at the end of the script, latest first. -/
  postponed : List Bytes
  hasReplaced : Bool
  ranges : List (Nat × RangeState)
  lastSearch : Search
  /-- The code with which the program ends. -/
  code : Nat

/-- How the run of a script ends: it comes to an end, meets a fault, or never ends. -/
inductive EditingEnd where
  | done (editor : Editor)
  | failed (fault : EditingFault)
  | endless

/-- The text up to the first delimiter, and what follows that if there is one. -/
def firstLine (delimiter : UInt8) (content : Bytes) : Bytes × Option Bytes :=
  match content.dropWhile (· ≠ delimiter) with
  | [] => (content, none)
  | _ :: rest => (content.takeWhile (· ≠ delimiter), some rest)

/-- A byte as it is listed. -/
def listedByte (b : UInt8) : Text :=
  match escapes.find? fun known => known.1 = b with
  | some (_, letter) => ['\\', letter]
  | none =>
    if 0x20 ≤ b && b ≤ 0x7E then [Char.ofNat b.toNat]
    else
      let digits := Nat.toDigits 8 b.toNat
      '\\' :: (List.replicate (3 - digits.length) '0' ++ digits)
where
  /-- The bytes that are listed as letters. -/
  escapes : List (UInt8 × Char) :=
    [(0x5C, '\\'), (0x07, 'a'), (0x08, 'b'), (0x0C, 'f'), (0x0A, 'n'), (0x0D, 'r'), (0x09, 't'),
     (0x0B, 'v')]

/-- A text as it is listed, in lines of the given width; a width of zero is none. -/
def listing (width : Nat) (content : Bytes) : Text :=
  let (front, _) := content.foldl (fun (front, used) b =>
    let piece := listedByte b
    if 0 < width && width - 1 < used + piece.length then
      (piece.reverse ++ '\n' :: '\\' :: front, piece.length)
    else (piece.reverse ++ front, used + piece.length)) (([], 0) : Text × Nat)
  front.reverse ++ ['$', '\n']

namespace Editor

/-! ## Writing -/

/-- Writes the end of the last line if it is missing. -/
def complete (editor : Editor) (delimiter : UInt8) : Editor :=
  if editor.isPending then
    { editor with written := (.output, [delimiter]) :: editor.written, isPending := false }
  else editor

/-- Writes bytes. -/
def write (editor : Editor) (mode : EditingMode) (content : Bytes) : Editor :=
  let editor := editor.complete mode.delimiter
  { editor with written := (.output, content) :: editor.written }

/-- Writes a line. -/
def writeLine (editor : Editor) (mode : EditingMode) (line : EditedLine) : Editor :=
  if line.isEnded then editor.write mode (line.content ++ [mode.delimiter])
  else { editor.write mode line.content with isPending := true }

/-- Writes a line to the file of the given name; files other than the channels are not kept. -/
def writeTo (editor : Editor) (mode : EditingMode) (file : Text) (line : EditedLine) : Editor :=
  let content := if line.isEnded then line.content ++ [mode.delimiter] else line.content
  match String.ofList file with
  | "/dev/stdout" => { editor with written := (.output, content) :: editor.written }
  | "/dev/stderr" => { editor with written := (.errors, content) :: editor.written }
  | _ => editor

/-- Writes what was put off. -/
def flush (editor : Editor) (mode : EditingMode) : Editor :=
  { editor.postponed.reverse.foldl (fun editor content => editor.write mode content) editor with
    postponed := [] }

/-- The end of the script for a line. -/
def finishLine (editor : Editor) (mode : EditingMode) : Editor :=
  (if mode.isQuiet then editor else editor.writeLine mode editor.space).flush mode

/-- The first line of the text at hand. -/
def head (editor : Editor) (mode : EditingMode) : EditedLine :=
  match firstLine mode.delimiter editor.space.content with
  | (_, none) => editor.space
  | (line, some _) => ⟨line, true⟩

/-! ## Lines -/

/-- Reads the next line, if there is one. -/
def read? (editor : Editor) : Option Editor :=
  match editor.rest with
  | [] => none
  | line :: rest => some { editor with space := line, rest, number := editor.number + 1 }

/-- What a search is for, and the state after it. -/
def seek (editor : Editor) (search : Search) : Except EditingFault (SoughtPattern × Editor) :=
  match search.or editor.lastSearch with
  | some sought => .ok (sought, { editor with lastSearch := some sought })
  | none => .error .nothingToSearch

/-- Whether the line at hand is one of every `step` lines from the first one on. -/
def isEvery (editor : Editor) (first step : Nat) : Bool :=
  first ≤ editor.number && (editor.number - first) % step = 0

/-- Whether the line at hand is the one of an address. -/
def isAt (editor : Editor) (address : Address) : Except EditingFault (Bool × Editor) :=
  match address with
  | .line number => .ok (editor.number = number, editor)
  | .every first step => .ok (editor.isEvery first step, editor)
  | .last => .ok (editor.rest.isEmpty, editor)
  | .found search => do
    let (sought, editor) ← editor.seek search
    return ((matchFrom? sought.manner sought.pattern none editor.space.content).isSome, editor)
where
  /-- The place after the first match of a pattern in bytes. -/
  matchFrom? (manner : Manner) (pattern : Pattern) (before : Option UInt8) :
      Bytes → Option Place
    | [] => pattern.longest? manner ⟨0, before, [], []⟩
    | b :: rest =>
      match pattern.longest? manner ⟨0, before, b :: rest, []⟩ with
      | some place => some place
      | none => matchFrom? manner pattern (some b) rest

/-- The state of the range of an edit. -/
def rangeState (editor : Editor) (edit : Edit) : RangeState :=
  match editor.ranges.lookup edit.index, edit.selection with
  | some state, _ => state
  | none, .range (.line 0) _ => .open
  | none, _ => .waiting

/-- The state with another state of the range of an edit. -/
def withRange (editor : Editor) (edit : Edit) (state : RangeState) : Editor :=
  { editor with
    ranges := (edit.index, state) :: editor.ranges.filter fun known => known.1 ≠ edit.index }

/-- Whether the line at hand begins a range: a first line that is named by its number may have been
passed. -/
def isBegin (editor : Editor) (first : Address) (last : RangeEnd) :
    Except EditingFault (Bool × Editor) :=
  match first, last with
  | .line first, .at (.line last) =>
    .ok (first = editor.number || first < editor.number && editor.number ≤ last, editor)
  | .line first, _ => .ok (first ≤ editor.number, editor)
  | _, _ => editor.isAt first

/-- The state of a range that begins at the line at hand. -/
def begun (editor : Editor) (last : RangeEnd) : RangeState :=
  match last with
  | .at (.line line) => if line ≤ editor.number then .ended else .openTo line
  | .at (.every first step) => if editor.isEvery first step then .ended else .open
  | .at _ => .open
  | .after count => if count = 0 then .ended else .openPast (editor.number + count)
  | .multiple factor =>
    if factor = 0 then .ended else .openPast ((editor.number / factor + 1) * factor)

/-- Whether an edit is for the line at hand, its negation apart. -/
def isSelected (editor : Editor) (edit : Edit) : Except EditingFault (Bool × Editor) :=
  let upTo := fun (line : Nat) (state : RangeState) =>
    editor.withRange edit (if line ≤ editor.number then .ended else state)
  match edit.selection with
  | .all => .ok (true, editor)
  | .single address => editor.isAt address
  | .range first last =>
    match editor.rangeState edit, first, last with
    | .openTo line, _, _ => .ok (editor.number ≤ line, upTo line (.openTo line))
    | .openPast line, _, _ => .ok (true, upTo line (.openPast line))
    | .open, _, .at address => do
      let (isEnd, editor) ← editor.isAt address
      return (true, if isEnd then editor.withRange edit .ended else editor)
    | .ended, .line _, _ => .ok (false, editor)
    | _, _, _ => do
      let (isBegin, editor) ← editor.isBegin first last
      return (isBegin, if isBegin then editor.withRange edit (editor.begun last) else editor)

/-! ## Actions -/

/-- Replaces matches in the text at hand. -/
def substitute (editor : Editor) (mode : EditingMode) (substitution : Substitution)
    (search : Search) (target : Option Text) : Except EditingFault Editor := do
  let (sought, editor) ← editor.seek search
  let asked := Replacement.greatestGroup substitution.replacement
  if sought.groups.any (· < asked) then throw (.unknownGroup asked)
  let (content, isChanged) := substitution.apply sought.manner sought.pattern editor.space.content
  if isChanged then
    let editor := { editor with space.content := content, hasReplaced := true }
    let editor := if substitution.isPrinted then editor.writeLine mode editor.space else editor
    return match target with
      | some file => editor.writeTo mode file editor.space
      | none => editor
  else return editor

/-- The state after an action that changes neither the order of edits nor the line to be worked
on. -/
def apply (editor : Editor) (mode : EditingMode) (edit : Edit) : Except EditingFault Editor :=
  let space := editor.space
  let joined := fun first second : Bytes => first ++ mode.delimiter :: second
  match edit.action with
  | .substitute substitution search target => editor.substitute mode substitution search target
  | .transliterate pairs =>
    .ok { editor with
      space.content := space.content.map fun b => (pairs.lookup b).getD b }
  | .print => .ok (editor.writeLine mode space)
  | .printFirst => .ok (editor.writeLine mode (editor.head mode))
  | .write file => .ok (editor.writeTo mode file space)
  | .writeFirst file => .ok (editor.writeTo mode file (editor.head mode))
  | .list width =>
    .ok (editor.write mode (Utf8.encode (listing (width.getD mode.width) space.content)))
  | .lineNumber => .ok (editor.write mode (Utf8.encode (decimal editor.number ++ ['\n'])))
  | .fileName => .ok (editor.write mode (bytes "-\n"))
  | .hold => .ok { editor with held := space }
  | .holdMore =>
    .ok { editor with held := ⟨joined editor.held.content space.content, space.isEnded⟩ }
  | .takeHeld => .ok { editor with space := editor.held }
  | .addHeld =>
    .ok { editor with
      space := ⟨joined space.content editor.held.content, editor.held.isEnded⟩ }
  | .exchange => .ok { editor with space := editor.held, held := space }
  | .clear => .ok { editor with space.content := [] }
  | .append content => .ok { editor with postponed := content :: editor.postponed }
  | .insert content => .ok (editor.write mode content)
  | .read _ => .ok { editor with postponed := [] :: editor.postponed }
  | _ => .ok editor

/-- The length of a text that only a script which never ends arrives at. -/
def greatestLength : Nat := 1 <<< 22

/-- Whether an action that joins texts has made one that is too long. -/
def isTooLong (editor : Editor) (edit : Edit) : Bool :=
  match edit.action with
  | .holdMore => greatestLength < editor.held.content.length
  | .addHeld => greatestLength < editor.space.content.length
  | _ => false

/-- The edits behind the end of the block that was opened before them. -/
def behindBlock (depth : Nat) : List Edit → List Edit
  | [] => []
  | edit :: edits =>
    match edit.action with
    | .openBlock => behindBlock (depth + 1) edits
    | .closeBlock =>
      match depth with
      | 0 => edits
      | depth + 1 => behindBlock depth edits
    | _ => behindBlock depth edits

/-- The edits behind the last label of the given name; the empty name is the end of the script. -/
def behindLabel (name : Text) (edits : List Edit) : List Edit :=
  (edits.foldl (fun (found, rest) edit =>
    match edit.action with
    | .label other => (if other = name then rest.drop 1 else found, rest.drop 1)
    | _ => (found, rest.drop 1)) (([], edits) : List Edit × List Edit)).1

/-- Applies the edits that are left for the line at hand, and the script to the lines after it;
`fuel` bounds the number of edits and lines. -/
def run (mode : EditingMode) : Nat → List Edit → Editor → EditingEnd
  | 0, _, _ => .endless
  | fuel + 1, edits, editor =>
    let nextLine := fun editor : Editor =>
      match editor.read? with
      | some editor => run mode fuel mode.edits { editor with hasReplaced := false }
      | none => .done editor
    match edits with
    | [] => nextLine (editor.finishLine mode)
    | edit :: edits =>
      match editor.isSelected edit with
      | .error fault => .failed fault
      | .ok (isSelected, editor) =>
        if isSelected = edit.isNegated then
          match edit.action with
          | .openBlock => run mode fuel (behindBlock 0 edits) editor
          | _ => run mode fuel edits editor
        else
          match edit.action with
          | .jump condition name =>
            let isMade := match condition with
              | .always => true
              | .ifReplaced => editor.hasReplaced
              | .unlessReplaced => !editor.hasReplaced
            let editor :=
              if condition = .always then editor else { editor with hasReplaced := false }
            run mode fuel (if isMade then behindLabel name mode.edits else edits) editor
          | .delete => nextLine (editor.flush mode)
          | .deleteFirst =>
            match firstLine mode.delimiter editor.space.content with
            | (_, none) => nextLine (editor.flush mode)
            | (_, some content) =>
              run mode fuel mode.edits { editor.flush mode with space.content := content }
          | .change content =>
            let isLast := !(editor.rangeState edit).isOpen
            nextLine ((if isLast then editor.write mode content else editor).flush mode)
          | .next =>
            if editor.rest.isEmpty then .done (editor.finishLine mode)
            else
              let finished := editor.finishLine mode
              run mode fuel edits (finished.read?.getD finished)
          | .joinNext =>
            let flushed := editor.flush mode
            match flushed.read? with
            | none => .done (editor.finishLine mode)
            | some next =>
              let content := editor.space.content ++ mode.delimiter :: next.space.content
              run mode fuel edits { next with space.content := content }
          | .quit code isPrinting =>
            let editor :=
              if isPrinting then (editor.finishLine mode).complete mode.delimiter else editor
            .done { editor with code }
          | _ =>
            match editor.apply mode edit with
            | .error fault => .failed fault
            | .ok editor =>
              if editor.isTooLong edit then .endless else run mode fuel edits editor

/-- Runs a script on lines. -/
def start (mode : EditingMode) (lines : List EditedLine) (fuel : Nat) : EditingEnd :=
  let editor : Editor :=
    { space := ⟨[], true⟩, held := ⟨[], true⟩, number := 0, rest := lines, written := []
      isPending := false, postponed := [], hasReplaced := false, ranges := [], lastSearch := none
      code := 0 }
  match editor.read? with
  | none => .done editor
  | some editor => run mode fuel mode.edits editor

end Editor

end Marginalia.Program
