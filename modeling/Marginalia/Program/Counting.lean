import Marginalia.Program.Source
import Marginalia.Program.Switch

/-! # Counting

The program `wc` counts lines, words, characters and bytes, and measures the longest line.
-/
namespace Marginalia.Program

open Text

/-- The counts of a content. -/
structure Counts where
  lines : Nat
  words : Nat
  bytes : Nat
  /-- The length of the longest line. -/
  longest : Nat

/-- How far counting has come in a line: how long it is so far, and whether a word is under way. -/
structure CountPlace where
  counts : Counts
  column : Nat
  isInWord : Bool

namespace CountPlace

/-- Ends the word under way. -/
def endWord (place : CountPlace) : CountPlace :=
  if place.isInWord then
    { place with
      isInWord := false
      counts := { place.counts with words := place.counts.words + 1 } }
  else place

/-- Ends the line under way. -/
def endLine (place : CountPlace) : CountPlace :=
  { place with
    column := 0
    counts := { place.counts with longest := max place.counts.longest place.column } }

/-- Counts a byte.  Bytes that cannot be seen neither make a word nor end one, and take no place in
a line. -/
def next (place : CountPlace) (b : UInt8) : CountPlace :=
  let place := { place with counts := { place.counts with bytes := place.counts.bytes + 1 } }
  if b = lineFeed then
    let place := place.endWord.endLine
    { place with counts := { place.counts with lines := place.counts.lines + 1 } }
  else if b = 0x0C || b = 0x0D then place.endWord.endLine
  else if b = 0x09 then { place.endWord with column := place.column / 8 * 8 + 8 }
  else if b = 0x20 then { place.endWord with column := place.column + 1 }
  else if b = 0x0B then place.endWord
  else if isPrintable b then { place with column := place.column + 1, isInWord := true }
  else place

end CountPlace

namespace Counts

/-- The counts of nothing. -/
def zero : Counts :=
  ⟨0, 0, 0, 0⟩

/-- The counts of a content. -/
def ofContent (content : Bytes) : Counts :=
  (content.foldl CountPlace.next ⟨zero, 0, false⟩).endWord.endLine.counts

/-- The counts of two contents. -/
def add (a b : Counts) : Counts :=
  ⟨a.lines + b.lines, a.words + b.words, a.bytes + b.bytes, max a.longest b.longest⟩

end Counts

/-- What is counted. -/
structure Counting where
  asksLines : Bool
  asksWords : Bool
  asksCharacters : Bool
  asksBytes : Bool
  asksLongest : Bool

namespace Counting

/-- The options. -/
def switches : List (Switch (Counting → Counting)) :=
  [⟨['c'], ["bytes"], .plain fun counting => { counting with asksBytes := true }⟩,
   ⟨['m'], ["chars"], .plain fun counting => { counting with asksCharacters := true }⟩,
   ⟨['l'], ["lines"], .plain fun counting => { counting with asksLines := true }⟩,
   ⟨['w'], ["words"], .plain fun counting => { counting with asksWords := true }⟩,
   ⟨['L'], ["max-line-length"], .plain fun counting => { counting with asksLongest := true }⟩]

/-- Lines, words and bytes, unless an option asks for something else. -/
def orUsual : Counting → Counting
  | ⟨false, false, false, false, false⟩ => ⟨true, true, false, true, false⟩
  | counting => counting

/-- The counts that are asked for, in the order in which they are written. -/
def select (counting : Counting) (counts : Counts) : List Nat :=
  [(counting.asksLines, counts.lines), (counting.asksWords, counts.words),
   (counting.asksCharacters, counts.bytes), (counting.asksBytes, counts.bytes),
   (counting.asksLongest, counts.longest)].filterMap fun (isAsked, count) =>
    if isAsked then some count else none

/-- A line with counts, each at least so wide, and a name. -/
def line (counting : Counting) (width : Nat) (name : Option Bytes) (counts : Counts) : Bytes :=
  let columns := (counting.select counts).map fun count =>
    List.replicate (width - (decimal count).length) ' ' ++ decimal count
  Utf8.encode (columns.intersperse [' ']).flatten ++ (name.elim [] (0x20 :: ·)) ++ [lineFeed]

end Counting

/-- One run of counting: what was written latest first, what is left of the input, the counts of all
so far, and whether all operands were found and ended. -/
structure CountState where
  written : List (Channel × Bytes)
  unread : Bytes
  total : Counts
  isComplete : Bool
  isEndless : Bool

/-- Counts what one operand names. -/
def Counting.next (counting : Counting) (width : Nat) (state : CountState) (operand : Bytes) :
    CountState :=
  let failure := (Channel.errors,
    bytes ("wc: " ++ namedAs operand ++ ": " ++ unreadable (textOf operand) ++ "\n"))
  match source? (textOf operand) state.unread with
  | some (.finite content, unread) =>
    let counts := Counts.ofContent content
    { state with
      written := (.output, counting.line width (some operand) counts) :: state.written
      unread
      total := state.total.add counts }
  | some (.zeros, _) => { state with isEndless := true }
  | none =>
    let line := if unreadable (textOf operand) = notFound then []
      else [(Channel.output, counting.line width (some operand) .zero)]
    { state with written := line ++ failure :: state.written, isComplete := false }

/-- Writes the counts of what the operands name, and of all of it. -/
def wc : Run := fun arguments input =>
  match settled Counting.switches true ⟨false, false, false, false, false⟩ arguments with
  | .error fault => .failure 1 (fault.report "wc") input
  | .ok (counting, operands) =>
    let counting := counting.orUsual
    let isSingle := (counting.select .zero).length ≤ 1
    match operands with
    | [] =>
      .success (counting.line (if isSingle then 1 else 7) none (.ofContent input)) []
    | _ :: others =>
      let isKnown := fun operand =>
        (source? (textOf operand) []).isSome || unreadable (textOf operand) ≠ notFound
      let width := if !operands.any isKnown || others.isEmpty && isSingle then 1 else 7
      let state := operands.foldl (counting.next width) ⟨[], input, .zero, true, false⟩
      let total := if others.isEmpty then []
        else [(Channel.output, counting.line width (some (bytes "total")) state.total)]
      { written := state.written.reverse ++ total
        unread := state.unread
        ending := .exited (if state.isComplete then 0 else 1)
        duration := if state.isEndless then none else some 0 }

end Marginalia.Program
