import Marginalia.Program.ByteList

/-! # Patterns of the shell

A pattern is matched against the whole of a text: an asterisk stands for any bytes, a question mark
for one, a bracket for one of its members, and all else for itself.  What was quoted stands for
itself as well, so a pattern is read from bytes of which each is quoted or not.
-/
namespace Marginalia.Program

/-- An item of a pattern. -/
inductive GlobItem where
  | byte (b : UInt8)
  | any
  | anyRun
  | oneOf (isNegated : Bool) (members : Bytes)
  deriving DecidableEq, Repr

/-- A pattern. -/
abbrev Glob := List GlobItem

namespace Glob

/-- The class that a list begins with, between brackets and colons, and what follows it. -/
def classFrom? (list : Bytes) : Option (Bytes × Bytes) :=
  match (bytes "[:").isPrefixOf? list with
  | none => none
  | some rest =>
    let name := rest.takeWhile fun b => 0x61 ≤ b && b ≤ 0x7A
    match (bytes ":]").isPrefixOf? (rest.drop name.length), byteClass? (textOf name) with
    | some rest, some members => some (members, rest)
    | _, _ => none

/-- The members of a bracket and what follows it, read from its front; `fuel` is more than its
length. -/
def members? (isFirst : Bool) : Nat → List (UInt8 × Bool) → Option (Bytes × List (UInt8 × Bool))
  | 0, _ | _, [] => none
  | fuel + 1, (b, isQuoted) :: rest =>
    if isByteOf ']' b && !isQuoted && !isFirst then some ([], rest)
    else
      match classFrom? (b :: rest.map Prod.fst) with
      | some (members, after) =>
        (members? false fuel (rest.drop (rest.length - after.length))).map fun (more, rest) =>
          (members ++ more, rest)
      | none =>
        match rest with
        | (dash, false) :: (last, isLastQuoted) :: tail =>
          if isByteOf '-' dash && (isLastQuoted || !isByteOf ']' last) then
            (members? false fuel tail).map fun (more, rest) =>
              ((allBytes.filter fun c => b ≤ c && c ≤ last) ++ more, rest)
          else (members? false fuel rest).map fun (more, rest) => (b :: more, rest)
        | _ => (members? false fuel rest).map fun (more, rest) => (b :: more, rest)

/-- Reads a pattern; `fuel` is more than its length. -/
def read : Nat → List (UInt8 × Bool) → Glob
  | 0, _ | _, [] => []
  | fuel + 1, (b, isQuoted) :: rest =>
    if isQuoted then .byte b :: read fuel rest
    else if isByteOf '*' b then .anyRun :: read fuel rest
    else if isByteOf '?' b then .any :: read fuel rest
    else if isByteOf '\\' b then
      match rest with
      | (c, _) :: rest => .byte c :: read fuel rest
      | [] => [.byte b]
    else if isByteOf '[' b then
      let isNegated := match rest with
        | (c, false) :: _ => isByteOf '!' c || isByteOf '^' c
        | _ => false
      let list := if isNegated then rest.drop 1 else rest
      match members? true (list.length + 1) list with
      | some (members, rest) => .oneOf isNegated members :: read fuel rest
      | none => .byte b :: read fuel rest
    else .byte b :: read fuel rest

/-- The pattern that bytes stand for, each with whether it was quoted. -/
def ofBytes (content : List (UInt8 × Bool)) : Glob :=
  read (content.length + 1) content

/-- Whether the pattern matches the whole of a text. -/
def isMatch : Glob → Bytes → Bool
  | [], text => text.isEmpty
  | .anyRun :: items, [] => isMatch items []
  | .anyRun :: items, b :: text => isMatch items (b :: text) || isMatch (.anyRun :: items) text
  | _ :: _, [] => false
  | .byte c :: items, b :: text => b = c && isMatch items text
  | .any :: items, _ :: text => isMatch items text
  | .oneOf isNegated members :: items, b :: text =>
    members.contains b != isNegated && isMatch items text
termination_by items text => (items.length, text.length)

/-- The text without its shortest or longest front that the pattern matches. -/
def dropFront (glob : Glob) (isLongest : Bool) (text : Bytes) : Bytes :=
  let lengths := List.range (text.length + 1)
  match (if isLongest then lengths.reverse else lengths).find? fun length =>
      glob.isMatch (text.take length) with
  | some length => text.drop length
  | none => text

/-- The text without its shortest or longest end that the pattern matches. -/
def dropBack (glob : Glob) (isLongest : Bool) (text : Bytes) : Bytes :=
  let lengths := List.range (text.length + 1)
  match (if isLongest then lengths else lengths.reverse).find? fun length =>
      glob.isMatch (text.drop length) with
  | some length => text.take length
  | none => text

end Glob

end Marginalia.Program
