import Marginalia.Program.Pattern
import Marginalia.Program.ByteList

/-! # Reading patterns

A pattern is written in one of two spellings.  In the plain one, the signs for groups, alternatives
and repetitions other than the star have a backslash in front; in the extended one they have none.

`Pattern.ofText` reads a pattern.  Its text is that of bytes: each character is one byte.
-/
namespace Marginalia.Program

open Text

/-- Why a text is not a pattern. -/
inductive PatternFault where
  | nothingToRepeat
  | openGroup
  | strayGroupEnd
  | openBracket
  | openCount
  | invalidCount
  | invalidRange
  | invalidClass
  | invalidElement
  | tooBig
  | unknownGroup
  | endsInBackslash
  | unbracketedClass
  deriving DecidableEq, Repr

/-- The fault in words. -/
def PatternFault.message : PatternFault → String
  | nothingToRepeat => "Invalid preceding regular expression"
  | openGroup => "Unmatched ( or \\("
  | strayGroupEnd => "Unmatched ) or \\)"
  | openBracket => "Unmatched [, [^, [:, [., or [="
  | openCount => "Unmatched \\\x7b"
  | invalidCount => "Invalid content of \\\x7b\\\x7d"
  | invalidRange => "Invalid range end"
  | invalidClass => "Invalid character class name"
  | invalidElement => "Invalid collation character"
  | tooBig => "Regular expression too big"
  | unknownGroup => "Invalid back reference"
  | endsInBackslash => "Trailing backslash"
  | unbracketedClass => "character class syntax is [[:space:]], not [:space:]"

/-! ## Brackets -/

/-- An element of a bracket: a byte, which may begin or end a range, or a class of bytes. -/
inductive BracketElement where
  | byte (b : UInt8)
  | oneOf (members : Bytes)

/-- Reads an element of a bracket. -/
def BracketElement.read : Text → Except PatternFault (BracketElement × Text)
  | [] => .error .openBracket
  | '[' :: ':' :: rest =>
    match split? [':', ']'] rest with
    | none => .error .openBracket
    | some (name, rest) =>
      match byteClass? (String.ofList name) with
      | some members => .ok (.oneOf members, rest)
      | none => .error .invalidClass
  | '[' :: '.' :: rest =>
    match split? ['.', ']'] rest with
    | none => .error .openBracket
    | some ([c], rest) => .ok (.byte c.toUInt8, rest)
    | some _ => .error .invalidElement
  | '[' :: '=' :: rest =>
    match split? ['=', ']'] rest with
    | none => .error .openBracket
    | some ([c], rest) => .ok (.oneOf [c.toUInt8], rest)
    | some _ => .error .invalidElement
  | '-' :: '-' :: '-' :: rest => .ok (.byte '-'.toUInt8, rest)
  | c :: rest => .ok (.byte c.toUInt8, rest)

/-- Reads the members of a bracket, and what follows it; `fuel` is more than the length. -/
def bracketMembers (isFirst : Bool) : Nat → Text → Except PatternFault (Bytes × Text)
  | 0, _ => .error .openBracket
  | fuel + 1, text => do
    let isMisplaced := match text with
      | '-' :: c :: rest => !isFirst && c ≠ ']' && !(['-', '-'].isPrefixOf (c :: rest))
      | _ => false
    if isMisplaced then throw .invalidRange
    match text with
    | ']' :: rest => if !isFirst then return ([], rest)
    | _ => pure ()
    let (element, rest) ← BracketElement.read text
    let (members, rest) ← match element, rest with
      | .byte first, '-' :: c :: tail =>
        if c = ']' then pure ([first], rest)
        else
          match ← BracketElement.read (c :: tail) with
          | (.byte last, rest) =>
            if first ≤ last then
              pure (allBytes.filter fun b => first ≤ b && b ≤ last, rest)
            else throw .invalidRange
          | _ => throw .invalidRange
      | .byte b, _ => pure ([b], rest)
      | .oneOf members, '-' :: c :: _ =>
        if c = ']' then pure (members, rest) else throw .invalidRange
      | .oneOf members, _ => pure (members, rest)
    let (others, rest) ← bracketMembers false fuel rest
    return (members ++ others, rest)

/-- Reads a bracket after its opening sign. -/
def bracket (text : Text) : Except PatternFault (Atom × Text) := do
  let isNegated := text.head? = some '^'
  let list := if isNegated then text.drop 1 else text
  let (members, rest) ← bracketMembers true (list.length + 1) list
  let content := list.take (list.length - rest.length - 1)
  if content.head? = some ':' && content.getLast? = some ':' && content.any (· ≠ ':') &&
      (split? ['[', ':'] content).isNone then
    throw .unbracketedClass
  return (.oneOf isNegated members, rest)

/-! ## Signs -/

/-- The signs between the parts of a pattern. -/
inductive PatternSign where
  | star
  | plus
  | questionMark
  | count
  | opening
  | closing
  | bar
  deriving DecidableEq, Repr

/-- The sign that a character is, where it is one at all. -/
def PatternSign.ofChar? (c : Char) : Option PatternSign :=
  match c with
  | '+' => some .plus
  | '?' => some .questionMark
  | '\x7b' => some .count
  | '(' => some .opening
  | ')' => some .closing
  | '|' => some .bar
  | _ => none

/-- The sign at the front of a text, its last character, and what follows. -/
def PatternSign.read? (isExtended : Bool) (text : Text) : Option (PatternSign × Char × Text) :=
  match text with
  | '*' :: rest => some (.star, '*', rest)
  | '\\' :: c :: rest => if isExtended then none else (ofChar? c).map (·, c, rest)
  | c :: rest => if isExtended then (ofChar? c).map (·, c, rest) else none
  | [] => none

/-- The greatest number of times that a pattern can ask for. -/
def greatestCount : Nat := 32767

/-- A bound of a count: none is written, or a number, or something else. -/
inductive CountBound where
  | missing
  | number (n : Nat)
  | invalid

/-- Reads a bound of a count up to the sign that ends it, and gives the text from that sign on. -/
def CountBound.read (isExtended : Bool) (bound : CountBound) : Text → CountBound × Text
  | [] => (.invalid, [])
  | ',' :: rest => (bound, ',' :: rest)
  | '\x7d' :: rest =>
    if isExtended then (bound, '\x7d' :: rest) else CountBound.invalid.read isExtended rest
  | ['\\'] => (.invalid, [])
  | '\\' :: c :: rest =>
    if c = '\x7d' && !isExtended then (bound, '\x7d' :: rest)
    else CountBound.invalid.read isExtended rest
  | c :: rest =>
    let next := if c.isDigit then
        match bound with
        | missing => .number (c.toNat - '0'.toNat)
        | number n => .number (n * 10 + (c.toNat - '0'.toNat))
        | invalid => .invalid
      else .invalid
    CountBound.read isExtended next rest

/-- Reads a count after its opening sign: how often at least, how often at most, and what
follows. -/
def count (isExtended : Bool) (text : Text) :
    Except PatternFault (Nat × Option Nat × Text) := do
  let (first, rest) := CountBound.missing.read isExtended text
  let least ← match first, rest with
    | .number n, _ => pure n
    | .missing, ',' :: _ => pure 0
    | .invalid, [] => throw .openCount
    | _, _ => throw .invalidCount
  let (most, rest) ← match rest with
    | ',' :: rest =>
      match CountBound.missing.read isExtended rest with
      | (.number n, '\x7d' :: rest) => pure (some n, rest)
      | (.missing, '\x7d' :: rest) => pure (none, rest)
      | (_, []) => throw .openCount
      | _ => throw .invalidCount
    | _ => pure (some least, rest.drop 1)
  if most.any (· < least) then throw .invalidCount
  if greatestCount < most.getD least then throw .tooBig
  return (least, most, rest)

/-! ## Patterns -/

/-- A group that is open: its number, the alternatives before the last bar, and the parts behind it,
latest first. -/
structure OpenGroup where
  number : Nat
  /-- The groups that were closed before this one. -/
  closedBefore : List Nat
  /-- The groups that the alternatives before the last bar close. -/
  closedWithin : List Nat
  before : Option Pattern
  parts : List Pattern
  /-- Whether the last part can be repeated. -/
  isRepeatable : Bool
  /-- Whether the last part is repeated. -/
  isRepeated : Bool

namespace OpenGroup

/-- A group with nothing in it, after the given closed groups. -/
def ofNumber (number : Nat) (closedBefore : List Nat) : OpenGroup :=
  ⟨number, closedBefore, [], none, [], false, false⟩

/-- Adds a part. -/
def add (group : OpenGroup) (part : Pattern) : OpenGroup :=
  { group with parts := part :: group.parts, isRepeatable := true, isRepeated := false }

/-- Adds a boundary, which cannot be repeated. -/
def addBoundary (group : OpenGroup) (boundary : Boundary) : OpenGroup :=
  { group with
    parts := .boundary boundary :: group.parts, isRepeatable := false, isRepeated := false }

/-- Replaces the last part. -/
def change (group : OpenGroup) (f : Pattern → Pattern) : OpenGroup :=
  match group.parts with
  | [] => group
  | part :: parts => { group with parts := f part :: parts, isRepeated := true }

/-- What has been read, as one pattern. -/
def toPattern (group : OpenGroup) : Pattern :=
  let sequence := match group.parts.reverse with
    | [] => .nothing
    | part :: parts => parts.foldl .sequence part
  match group.before with
  | none => sequence
  | some before => .either before sequence

/-- Goes on to the next alternative; `closed` are the groups that are closed before it. -/
def next (group : OpenGroup) (closed : List Nat) : OpenGroup :=
  { ofNumber group.number group.closedBefore with
    closedWithin := group.closedWithin ++ closed
    before := some group.toPattern }

end OpenGroup

/-- What has been read of a pattern: the group at work, the groups around it, how many groups have
been opened, and the numbers of those that can be asked for again: they are closed, and not within
another alternative. -/
structure PatternReading where
  group : OpenGroup
  around : List OpenGroup
  opened : Nat
  closed : List Nat

namespace PatternReading

/-- Applies a change to the group at work. -/
def within (reading : PatternReading) (f : OpenGroup → OpenGroup) : PatternReading :=
  { reading with group := f reading.group }

/-- Takes a sign into account; `rest` is what follows it. -/
def sign (reading : PatternReading) (isExtended : Bool) (sign : PatternSign) (c : Char)
    (rest : Text) : Except PatternFault (PatternReading × Text) :=
  let repeatBy := fun (isStrict : Bool) (f : Pattern → Pattern) (rest : Text) =>
    if reading.group.isRepeatable then
      if isStrict && !isExtended && reading.group.isRepeated then .error .nothingToRepeat
      else .ok (reading.within (·.change f), rest)
    else if isExtended || sign = .count then .error .nothingToRepeat
    else .ok (reading.within (·.add (.single (.byte c.toUInt8))), rest)
  match sign with
  | .star => repeatBy true (Pattern.times 0 none) rest
  | .plus => repeatBy false (Pattern.times 1 none) rest
  | .questionMark => repeatBy false Pattern.optional rest
  | .count =>
    if reading.group.isRepeatable then do
      let (least, most, rest) ← count isExtended rest
      repeatBy true (Pattern.times least most) rest
    else .error .nothingToRepeat
  | .opening =>
    let number := reading.opened + 1
    .ok ({ reading with
      group := .ofNumber number reading.closed
      around := reading.group :: reading.around
      opened := number }, rest)
  | .closing =>
    match reading.around with
    | [] => .error .strayGroupEnd
    | group :: around =>
      let number := reading.group.number
      .ok ({ reading with
        group := group.add (.group number reading.group.toPattern)
        around
        closed := number :: (reading.closed ++ reading.group.closedWithin) }, rest)
  | .bar =>
    .ok ({ reading with
      group := reading.group.next reading.closed
      closed := reading.group.closedBefore }, rest)

/-- The bytes that belong to words. -/
def wordBytes : Bytes :=
  allBytes.filter isWordByte

/-- The bytes that separate words. -/
def spaceBytes : Bytes :=
  (byteClass? "space").getD []

/-- Takes into account a character behind a backslash. -/
def escaped (reading : PatternReading) (c : Char) : Except PatternFault PatternReading :=
  let boundary := fun boundary => .ok (reading.within (·.addBoundary boundary))
  let atom := fun atom => .ok (reading.within (·.add (.single atom)))
  match c with
  | '<' => boundary .wordStart
  | '>' => boundary .wordEnd
  | 'b' => boundary (.word false)
  | 'B' => boundary (.word true)
  | '\x60' => boundary .textStart
  | '\'' => boundary .textEnd
  | 'w' => atom (.oneOf false wordBytes)
  | 'W' => atom (.oneOf true wordBytes)
  | 's' => atom (.oneOf false spaceBytes)
  | 'S' => atom (.oneOf true spaceBytes)
  | _ =>
    if '1' ≤ c && c ≤ '9' then
      let number := c.toNat - '0'.toNat
      if reading.closed.contains number then .ok (reading.within (·.add (.again number)))
      else .error .unknownGroup
    else atom (.byte c.toUInt8)

/-- Whether a dollar sign is the end of a line if the given text follows it. -/
def isLineEnd (isExtended : Bool) (rest : Text) : Bool :=
  isExtended || rest.isEmpty ||
    (match PatternSign.read? isExtended rest with
      | some (.closing, _) | some (.bar, _) => true
      | _ => false)

/-- Reads on; `fuel` is more than the length of the text. -/
def run (isExtended : Bool) (reading : PatternReading) :
    Nat → Text → Except PatternFault PatternReading
  | 0, _ | _, [] => .ok reading
  | fuel + 1, c :: text => do
    match PatternSign.read? isExtended (c :: text) with
    | some (found, last, rest) =>
      let (reading, rest) ← reading.sign isExtended found last rest
      reading.run isExtended fuel rest
    | none =>
      if c = '\\' then
        match text with
        | [] => throw .endsInBackslash
        | d :: rest => (← reading.escaped d).run isExtended fuel rest
      else if c = '[' then
        let (atom, rest) ← bracket text
        (reading.within (·.add (.single atom))).run isExtended fuel rest
      else if c = '.' then (reading.within (·.add (.single .any))).run isExtended fuel text
      else if c = '^' && (isExtended || reading.group.parts.isEmpty) then
        (reading.within (·.addBoundary .lineStart)).run isExtended fuel text
      else if c = '$' && isLineEnd isExtended text then
        (reading.within (·.addBoundary .lineEnd)).run isExtended fuel text
      else (reading.within (·.add (.single (.byte c.toUInt8)))).run isExtended fuel text

end PatternReading

/-- Reads a pattern and tells how many groups it has. -/
def Pattern.ofText (isExtended : Bool) (text : Text) : Except PatternFault (Pattern × Nat) := do
  let reading ← PatternReading.run isExtended ⟨.ofNumber 0 [], [], 0, []⟩ (text.length + 1) text
  if !reading.around.isEmpty then throw .openGroup
  return (reading.group.toPattern, reading.opened)

end Marginalia.Program
