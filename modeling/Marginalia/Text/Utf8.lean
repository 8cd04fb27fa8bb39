import Marginalia.Text.Basic

/-! # The UTF-8 form

A text as bytes and back.  Decoding runs over the bytes once and remembers the character that is
under way; bytes that continue no character count as one fault for each longest start of a
character that they break off.  `decode?` refuses every fault and `decodeLossy` writes the
replacement character in its place.
-/
namespace Marginalia.Text.Utf8

/-- The bytes of a text. -/
def encode (text : Text) : List UInt8 :=
  text.flatMap String.utf8EncodeChar

/-- A character under way: the value so far, the number of bytes still to come, and the bounds of
the next one. -/
structure Pending where
  value : Nat
  missing : Nat
  low : UInt8
  high : UInt8

/-- What decoding has found so far, latest first; `none` is a fault. -/
structure Progress where
  pending : Option Pending
  found : List (Option Char)

/-- Decoding before the first byte. -/
def Progress.start : Progress :=
  ⟨none, []⟩

/-- Reads a byte where no character is under way. -/
def Progress.begin (found : List (Option Char)) (b : UInt8) : Progress :=
  if b < 0x80 then ⟨none, some (Char.ofNat b.toNat) :: found⟩
  else if 0xC2 ≤ b && b ≤ 0xDF then ⟨some ⟨b.toNat - 0xC0, 1, 0x80, 0xBF⟩, found⟩
  else if b == 0xE0 then ⟨some ⟨0, 2, 0xA0, 0xBF⟩, found⟩
  else if b == 0xED then ⟨some ⟨0xD, 2, 0x80, 0x9F⟩, found⟩
  else if 0xE1 ≤ b && b ≤ 0xEF then ⟨some ⟨b.toNat - 0xE0, 2, 0x80, 0xBF⟩, found⟩
  else if b == 0xF0 then ⟨some ⟨0, 3, 0x90, 0xBF⟩, found⟩
  else if b == 0xF4 then ⟨some ⟨4, 3, 0x80, 0x8F⟩, found⟩
  else if 0xF1 ≤ b && b ≤ 0xF3 then ⟨some ⟨b.toNat - 0xF0, 3, 0x80, 0xBF⟩, found⟩
  else ⟨none, none :: found⟩

/-- Reads one byte. -/
def Progress.next (progress : Progress) (b : UInt8) : Progress :=
  match progress.pending with
  | none => Progress.begin progress.found b
  | some p =>
    if p.low ≤ b && b ≤ p.high then
      let value := p.value * 64 + (b.toNat - 0x80)
      if p.missing ≤ 1 then ⟨none, some (Char.ofNat value) :: progress.found⟩
      else ⟨some ⟨value, p.missing - 1, 0x80, 0xBF⟩, progress.found⟩
    else Progress.begin (none :: progress.found) b

/-- The characters and faults of a sequence of bytes, in order. -/
def scan (bytes : List UInt8) : List (Option Char) :=
  let progress := bytes.foldl Progress.next Progress.start
  let found := if progress.pending.isSome then none :: progress.found else progress.found
  found.reverse

/-- The text whose UTF-8 form the bytes are, if there is one. -/
def decode? (bytes : List UInt8) : Option Text :=
  let found := scan bytes
  if found.all Option.isSome then some (found.filterMap id) else none

/-- The text of the bytes with the replacement character for every fault. -/
def decodeLossy (bytes : List UInt8) : Text :=
  (scan bytes).map fun c => c.getD '\uFFFD'

end Marginalia.Text.Utf8
