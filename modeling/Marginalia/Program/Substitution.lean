import Marginalia.Program.Pattern

/-! # Substitution

A substitution replaces matches of a pattern in a line, from left to right.  What is written for a
match is a list of parts: bytes, the match itself or one of its groups, and changes between small
and capital letters.

`Substitution.apply` edits a line.
-/
namespace Marginalia.Program

/-- How letters are written. -/
inductive LetterCase where
  | asGiven
  | small
  | capital
  deriving DecidableEq, Repr

/-- The byte as a small or a capital letter. -/
def LetterCase.apply (letterCase : LetterCase) (b : UInt8) : UInt8 :=
  match letterCase with
  | asGiven => b
  | small => smallByte b
  | capital => capitalByte b

/-- A part of what is written in place of a match. -/
inductive Replacement where
  | bytes (content : Bytes)
  /-- A group of the match; the match itself has the number zero. -/
  | group (number : Nat)
  /-- How the letters from here on are written. -/
  | letters (letterCase : LetterCase)
  /-- How the next letter alone is written. -/
  | nextLetter (letterCase : LetterCase)
  deriving DecidableEq, Repr

/-- What is written for a match so far, latest first; how letters are written; and how the next
letter alone is. -/
structure Expansion where
  front : Bytes
  letters : LetterCase
  nextLetter : LetterCase

namespace Expansion

/-- Adds bytes. -/
def add (expansion : Expansion) (content : Bytes) : Expansion :=
  match content with
  | [] => expansion
  | b :: rest =>
    let first := match expansion.nextLetter with
      | .asGiven => expansion.letters.apply b
      | letterCase => letterCase.apply b
    { expansion with
      front := (rest.map expansion.letters.apply).reverse ++ first :: expansion.front
      nextLetter := .asGiven }

/-- Adds a part, where `groups` holds the groups of the match. -/
def addPart (groups : List (Nat × Bytes)) (expansion : Expansion) (part : Replacement) :
    Expansion :=
  match part with
  | .bytes content => expansion.add content
  | .group number => expansion.add ((groups.lookup number).getD [])
  | .letters letterCase => { expansion with letters := letterCase, nextLetter := .asGiven }
  | .nextLetter letterCase => { expansion with nextLetter := letterCase }

end Expansion

/-- What is written for a match with the given groups. -/
def Replacement.expand (parts : List Replacement) (groups : List (Nat × Bytes)) : Bytes :=
  (parts.foldl (Expansion.addPart groups) ⟨[], .asGiven, .asGiven⟩).front.reverse

/-- The greatest number of a group that is asked for. -/
def Replacement.greatestGroup (parts : List Replacement) : Nat :=
  parts.foldl (fun greatest part =>
    match part with
    | .group number => max greatest number
    | _ => greatest) 0

/-- What is written for matches, and which matches are meant. -/
structure Substitution where
  replacement : List Replacement
  /-- The number of the first match that is replaced. -/
  first : Nat
  /-- Whether the later matches are replaced as well. -/
  isGlobal : Bool
  /-- Whether the line is written once more after a replacement. -/
  isPrinted : Bool

/-- The state of an edit: the bytes written, latest first; the byte before the place; how many bytes
belong to the last match still; the number of matches; and whether a match ends here. -/
structure Edited where
  front : Bytes
  before : Option UInt8
  skipped : Nat
  count : Nat
  isAfterMatch : Bool
  isChanged : Bool

namespace Substitution

/-- Whether matches are still looked for after so many. -/
def isOpen (substitution : Substitution) (count : Nat) : Bool :=
  count < substitution.first || substitution.isGlobal

/-- Looks for a match at a place that belongs to none. -/
def meet (substitution : Substitution) (manner : Manner) (pattern : Pattern) (edited : Edited)
    (rest : Bytes) : Edited :=
  match if substitution.isOpen edited.count then
      pattern.longest? manner ⟨0, edited.before, rest, []⟩ else none with
  | none => { edited with isAfterMatch := false }
  | some place =>
    if place.offset = 0 && edited.isAfterMatch then { edited with isAfterMatch := false }
    else
      let count := edited.count + 1
      let isReplaced := substitution.first ≤ count
      let found := rest.take place.offset
      let content :=
        if isReplaced then
          Replacement.expand substitution.replacement ((0, found) :: place.groups)
        else found
      { edited with
        front := content.reverse ++ edited.front
        skipped := place.offset
        count
        isAfterMatch := place.offset ≠ 0
        isChanged := edited.isChanged || isReplaced }

/-- Edits the rest of a line. -/
def editFrom (substitution : Substitution) (manner : Manner) (pattern : Pattern)
    (edited : Edited) : Bytes → Edited
  | [] => if edited.skipped = 0 then substitution.meet manner pattern edited [] else edited
  | b :: rest =>
    let edited :=
      if edited.skipped = 0 then substitution.meet manner pattern edited (b :: rest) else edited
    let next :=
      if edited.skipped = 0 then { edited with front := b :: edited.front }
      else { edited with skipped := edited.skipped - 1 }
    substitution.editFrom manner pattern { next with before := some b } rest

/-- A line after a substitution, and whether anything was replaced. -/
def apply (substitution : Substitution) (manner : Manner) (pattern : Pattern) (line : Bytes) :
    Bytes × Bool :=
  let edited := substitution.editFrom manner pattern ⟨[], none, 0, 0, false, false⟩ line
  (edited.front.reverse, edited.isChanged)

end Substitution

end Marginalia.Program
