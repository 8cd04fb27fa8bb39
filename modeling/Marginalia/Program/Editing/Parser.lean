import Marginalia.Program.Editing.Basic

/-! # Reading scripts for editing

`editsOf` reads a script; its text is that of bytes, each character one byte.  Every function
reads from the front of the text that is left and gives what it leaves; a fault comes with the
number of characters that are left where it is found.
-/
namespace Marginalia.Program

open Text

/-- The outcome of reading: a fault with the length of what is left, or a value. -/
abbrev EditReading (α : Type) := Except (EditingFault × Nat) α

namespace EditReading

/-- The fault, found where the given text is left. -/
def fail {α : Type} (fault : EditingFault) (rest : Text) : EditReading α :=
  .error (fault, rest.length)

end EditReading

open EditReading

/-- Whether a character separates words in a line. -/
def isLineBlank (c : Char) : Bool :=
  c = ' ' || c = '\t'

/-- Whether a character separates commands. -/
def isCommandBlank (c : Char) : Bool :=
  c = ' ' || '\t' ≤ c && c ≤ '\r'

/-- What follows the blanks of a line. -/
def skipBlanks (text : Text) : Text :=
  text.dropWhile isLineBlank

/-- The digits at the front of a text as a number, and what follows. -/
def wholeNumber (text : Text) : Nat × Text :=
  let digits := text.takeWhile Char.isDigit
  ((digitsValue? 10 digits).getD 0, text.drop digits.length)

/-! ## Delimited texts -/

/-- The rest of a bracket up to its closing sign, and what follows; `fuel` is more than the
length. -/
def restOfBracket? : Nat → Text → Option (Text × Text)
  | 0, _ | _, [] => none
  | fuel + 1, c :: rest =>
    if c = ']' then some ([c], rest)
    else if c = '\n' then none
    else
      match c, rest with
      | '\\', 'n' :: rest =>
        (restOfBracket? fuel rest).map fun (front, rest) => ('\n' :: front, rest)
      | '[', sign :: tail =>
        if [':', '.', '='].contains sign then
          match split? [sign, ']'] tail with
          | none => none
          | some (name, tail) =>
            (restOfBracket? fuel tail).map fun (front, rest) =>
              ('[' :: sign :: name ++ sign :: ']' :: front, rest)
        else (restOfBracket? fuel rest).map fun (front, rest) => (c :: front, rest)
      | _, _ => (restOfBracket? fuel rest).map fun (front, rest) => (c :: front, rest)

/-- A bracket after its opening sign up to its closing one, and what follows. -/
def bracketText? (text : Text) : Option (Text × Text) :=
  let opening := if text.head? = some '^' then ['^'] else []
  let opening := if (text.drop opening.length).head? = some ']' then opening ++ [']'] else opening
  (restOfBracket? (text.length + 1) (text.drop opening.length)).map fun (front, rest) =>
    (opening ++ front, rest)

/-- The text up to a delimiter, and what follows it; `front` holds the text before, latest first.  A
backslash in front of the delimiter falls away. -/
def delimited? (delimiter : Char) (isPattern : Bool) (front : Text) :
    Nat → Text → Except Text (Text × Text)
  | 0, rest => .error rest
  | _, [] => .error []
  | fuel + 1, c :: rest =>
    if c = delimiter then .ok (front.reverse, rest)
    else if c = '\n' then .error (c :: rest)
    else if c = '\\' then
      match rest with
      | [] => .error []
      | d :: rest =>
        let more := if d = delimiter then
            if d = '&' && !isPattern then [d, c] else [d]
          else if d = '\n' then [d]
          else if d = 'n' && isPattern then ['\n']
          else [d, c]
        delimited? delimiter isPattern (more ++ front) fuel rest
    else if c = '[' && isPattern then
      match bracketText? rest with
      | none => .error (rest.dropWhile (· ≠ '\n'))
      | some (bracket, rest) =>
        delimited? delimiter isPattern (bracket.reverse ++ c :: front) fuel rest
    else delimited? delimiter isPattern (c :: front) fuel rest

/-- The text up to a delimiter, and what follows it. -/
def upTo (delimiter : Char) (isPattern : Bool) (fault : EditingFault) (text : Text) :
    EditReading (Text × Text) :=
  match delimited? delimiter isPattern [] (text.length + 1) text with
  | .ok found => .ok found
  | .error rest => fail fault rest

/-- The base and the greatest number of digits of the codes behind a letter. -/
def codeDigits? (letter : Char) : Option (Nat × Nat) :=
  match letter with
  | 'd' => some (10, 3)
  | 'o' => some (8, 3)
  | 'x' => some (16, 2)
  | _ => none

/-- The byte that a letter stands for behind a backslash. -/
def escapedChar? (letter : Char) : Option Char :=
  match letter with
  | 'a' => some '\x07'
  | 'f' => some '\x0c'
  | 'n' => some '\n'
  | 'r' => some '\r'
  | 't' => some '\t'
  | 'v' => some '\x0b'
  | _ => none

/-- Whether a character is a digit in a base. -/
def isDigitIn (base : Nat) (c : Char) : Bool :=
  (digitsValue? base [c]).isSome

/-- The text with its escapes replaced by the characters that they stand for; `fuel` is at least its
length.  A sign that would have a meaning of its own keeps a backslash. -/
def withoutEscapes (isReplacement : Bool) : Nat → Text → Text
  | 0, text => text
  | _, [] => []
  | fuel + 1, '\\' :: c :: rest =>
    match escapedChar? c, codeDigits? c with
    | some escaped, _ => escaped :: withoutEscapes isReplacement fuel rest
    | none, some (base, most) =>
      let digits := (rest.take most).takeWhile (isDigitIn base)
      match digitsValue? base digits with
      | none => c :: withoutEscapes isReplacement fuel rest
      | some code =>
        let meant := Char.ofNat (code % 256)
        let sign := if meant = '\\' || meant = '&' && isReplacement then ['\\', meant]
          else [meant]
        sign ++ withoutEscapes isReplacement fuel (rest.drop digits.length)
    | none, none =>
      match c, rest with
      | 'c', d :: rest =>
        Char.ofNat (d.toUpper.toNat ^^^ 0x40) :: withoutEscapes isReplacement fuel rest
      | _, _ => '\\' :: c :: withoutEscapes isReplacement fuel rest
  | fuel + 1, c :: rest => c :: withoutEscapes isReplacement fuel rest

/-- The bytes of a text of bytes. -/
def toBytes (text : Text) : Bytes :=
  text.map Char.toUInt8

/-! ## Addresses -/

/-- Makes a search of the text of a pattern, whose groups are asked for up to the given number. -/
def searchOf (isExtended : Bool) (manner : Manner) (asked : Option Nat) (text rest : Text) :
    EditReading Search :=
  if text.isEmpty then
    if manner = ⟨false, false⟩ then .ok none else fail .modifiedSearch rest
  else
    match Pattern.ofText isExtended (withoutEscapes false text.length text), asked with
    | .error fault, _ => fail (.pattern fault) rest
    | .ok (pattern, groups), none => .ok (some ⟨pattern, manner, some groups⟩)
    | .ok (pattern, groups), some asked =>
      if groups < asked then fail (.unknownGroup asked) rest
      else .ok (some ⟨pattern, manner, none⟩)

/-- The flags behind the pattern of an address, and what follows. -/
def addressFlags (manner : Manner) : Text → Manner × Text
  | [] => (manner, [])
  | c :: rest =>
    if isLineBlank c then addressFlags manner rest
    else if c = 'I' then addressFlags { manner with isCaseless := true } rest
    else if c = 'M' then addressFlags { manner with isByLine := true } rest
    else (manner, c :: rest)

/-- Reads an address, if there is one, and what follows it. -/
def address? (isExtended : Bool) (text : Text) : EditReading (Option Address × Text) :=
  let search := fun (delimiter : Char) (rest : Text) => do
    let (content, rest) ← upTo delimiter true .unterminatedAddress rest
    let (manner, rest) := addressFlags ⟨false, false⟩ rest
    let search ← searchOf isExtended manner none content rest
    return (some (.found search), rest)
  match text with
  | '/' :: rest => search '/' rest
  | '\\' :: delimiter :: rest => search delimiter rest
  | '$' :: rest => .ok (some .last, rest)
  | c :: rest =>
    if c.isDigit then
      let (number, rest) := wholeNumber (c :: rest)
      match skipBlanks rest with
      | '~' :: rest =>
        let (step, rest) := wholeNumber (skipBlanks rest)
        .ok (some (if step = 0 then .line number else .every number step), rest)
      | rest => .ok (some (.line number), rest)
    else .ok (none, c :: rest)
  | [] => .ok (none, [])

/-- Reads the end of a range. -/
def rangeEnd (isExtended : Bool) (text : Text) : EditReading (RangeEnd × Text) := do
  match text with
  | '+' :: rest =>
    let (count, rest) := wholeNumber (skipBlanks rest)
    return (.after count, rest)
  | '~' :: rest =>
    let (factor, rest) := wholeNumber (skipBlanks rest)
    return (.multiple factor, rest)
  | _ =>
    match ← address? isExtended text with
    | (some address, rest) => return (.at address, rest)
    | (none, rest) => fail .unexpectedComma (rest.drop 1)

/-- Reads the lines that an edit is for, and what follows. -/
def selection (isExtended : Bool) (text : Text) : EditReading (Selection × Text) := do
  match ← address? isExtended text with
  | (none, rest) => return (.all, rest)
  | (some first, rest) =>
    let (selection, rest) ← match skipBlanks rest with
      | ',' :: rest =>
        let (last, rest) ← rangeEnd isExtended (skipBlanks rest)
        pure (Selection.range first last, skipBlanks rest)
      | rest => pure (Selection.single first, rest)
    match selection with
    | .single (.line 0) => fail .addressZero (rest.drop 1)
    | .range (.line 0) (.at (.found _)) => return (selection, rest)
    | .range (.line 0) _ => fail .addressZero (rest.drop 1)
    | _ => return (selection, rest)

/-! ## Commands -/

/-- What follows the end of a command. -/
def commandEnd (text : Text) : EditReading Text :=
  match skipBlanks text with
  | [] => .ok []
  | c :: rest =>
    if c = '\x7d' || c = '#' then .ok (c :: rest)
    else if c = '\n' || c = ';' then .ok rest
    else fail .extraCharacters rest

/-- Reads the parts of what is written for a match; `front` holds the bytes before, latest first. -/
def replacementParts (front : Bytes) : Text → List Replacement
  | [] => close front []
  | ['\\'] => close ('\\'.toUInt8 :: front) []
  | '\\' :: c :: rest =>
    match c with
    | 'L' => close front (.letters .small :: replacementParts [] rest)
    | 'U' => close front (.letters .capital :: replacementParts [] rest)
    | 'E' => close front (.letters .asGiven :: replacementParts [] rest)
    | 'l' => close front (.nextLetter .small :: replacementParts [] rest)
    | 'u' => close front (.nextLetter .capital :: replacementParts [] rest)
    | _ =>
      if c.isDigit then
        close front (.group (c.toNat - '0'.toNat) :: replacementParts [] rest)
      else replacementParts (c.toUInt8 :: front) rest
  | '&' :: rest => close front (.group 0 :: replacementParts [] rest)
  | c :: rest => replacementParts (c.toUInt8 :: front) rest
where
  /-- Puts the bytes in front of the parts. -/
  close (front : Bytes) (parts : List Replacement) : List Replacement :=
    if front.isEmpty then parts else .bytes front.reverse :: parts

/-- The flags of a substitution. -/
structure SubstitutionFlags where
  manner : Manner
  number : Option Nat
  isGlobal : Bool
  isPrinted : Bool
  target : Option Text

/-- Reads the name of a file up to the end of the line. -/
def fileName (text : Text) : EditReading (Text × Text) :=
  let text := skipBlanks text
  let name := text.takeWhile (· ≠ '\n')
  if name.isEmpty then fail .missingFile (text.drop 1)
  else .ok (name, text.drop (name.length + 1))

/-- Reads the flags of a substitution; `fuel` is more than the length of the text. -/
def substitutionFlags (flags : SubstitutionFlags) :
    Nat → Text → EditReading (SubstitutionFlags × Text)
  | 0, rest => .ok (flags, rest)
  | _, [] => .ok (flags, [])
  | fuel + 1, c :: rest =>
    match c with
    | '\n' | ';' => .ok (flags, rest)
    | '\x7d' | '#' => .ok (flags, c :: rest)
    | ' ' => substitutionFlags flags fuel rest
    | 'i' | 'I' =>
      substitutionFlags { flags with manner := { flags.manner with isCaseless := true } } fuel rest
    | 'm' | 'M' =>
      substitutionFlags { flags with manner := { flags.manner with isByLine := true } } fuel rest
    | 'g' =>
      if flags.isGlobal then fail .repeatedGlobal rest
      else substitutionFlags { flags with isGlobal := true } fuel rest
    | 'p' =>
      if flags.isPrinted then fail .repeatedPrint rest
      else substitutionFlags { flags with isPrinted := true } fuel rest
    | 'w' => do
      let (name, rest) ← fileName rest
      return ({ flags with target := some name }, rest)
    | _ =>
      if c.isDigit then
        if flags.number.isSome then fail .repeatedNumber rest
        else
          match wholeNumber (c :: rest) with
          | (0, rest) => fail .numberZero rest
          | (number, rest) => substitutionFlags { flags with number := some number } fuel rest
      else fail .unknownFlag rest

/-- Reads a substitution behind its letter. -/
def substitution (isExtended : Bool) (text : Text) : EditReading (Action × Text) := do
  match text with
  | [] => fail .unterminatedSubstitution []
  | delimiter :: rest =>
    let (pattern, rest) ← upTo delimiter true .unterminatedSubstitution rest
    let (replacement, rest) ← upTo delimiter false .unterminatedSubstitution rest
    let (flags, rest) ←
      substitutionFlags ⟨⟨false, false⟩, none, false, false, none⟩ (rest.length + 1) rest
    let parts := replacementParts [] (withoutEscapes true replacement.length replacement)
    let asked := Replacement.greatestGroup parts
    let search ← searchOf isExtended flags.manner (some asked) pattern rest
    return (.substitute ⟨parts, flags.number.getD 1, flags.isGlobal, flags.isPrinted⟩ search
      flags.target, rest)

/-- The bytes of one list of a transliteration. -/
def listedBytes : Text → Bytes
  | '\\' :: '\\' :: rest => '\\'.toUInt8 :: listedBytes rest
  | c :: rest => c.toUInt8 :: listedBytes rest
  | [] => []

/-- Reads a transliteration behind its letter. -/
def transliteration (text : Text) : EditReading (Action × Text) := do
  match text with
  | [] => fail .unterminatedTransliteration []
  | delimiter :: rest =>
    let (old, rest) ← upTo delimiter false .unterminatedTransliteration rest
    let (new, rest) ← upTo delimiter false .unterminatedTransliteration rest
    let old := listedBytes (withoutEscapes false old.length old)
    let new := listedBytes (withoutEscapes false new.length new)
    if old.length ≠ new.length then fail .unequalLists rest
    return (.transliterate (old.zip new), ← commandEnd rest)

/-- The lines of a text that is written as it is, up to the first end of a line with no backslash in
front; `front` holds the text before, latest first. -/
def writtenText (front : Text) : Text → Text × Text
  | [] => (front.reverse, [])
  | ['\\'] => (front.reverse, [])
  | '\\' :: c :: rest => writtenText (c :: '\\' :: front) rest
  | c :: rest => if c = '\n' then (front.reverse, rest) else writtenText (c :: front) rest

/-- The text without the backslashes in front of other characters. -/
def withoutBackslashes : Text → Text
  | '\\' :: c :: rest => c :: withoutBackslashes rest
  | c :: rest => c :: withoutBackslashes rest
  | [] => []

/-- Reads the text behind the letter of a command that writes one. -/
def addedText (text : Text) : EditReading (Bytes × Text) :=
  let take := fun text : Text =>
    let (content, rest) := writtenText [] text
    let content := withoutBackslashes (withoutEscapes false content.length content)
    .ok (toBytes (content ++ ['\n']), rest)
  match skipBlanks text with
  | [] => fail .missingText []
  | '\\' :: rest =>
    match skipBlanks rest with
    | [] => .ok ([], [])
    | '\n' :: rest => if rest.isEmpty then .ok ([], []) else take rest
    | _ => take rest
  | rest => take rest

/-- Reads the name of a label, and what follows it. -/
def labelName (text : Text) : Text × Text :=
  let text := skipBlanks text
  let name := text.takeWhile fun c => !isCommandBlank c && c ≠ ';' && c ≠ '\x7d'
  (name, text.drop name.length)

/-- Reads an action and what follows it. -/
def action (isExtended : Bool) (letter : Char) (rest : Text) : EditReading (Action × Text) := do
  let plain := fun action : Action => do return (action, ← commandEnd rest)
  let jump := fun (condition : JumpCondition) =>
    let (name, rest) := labelName rest
    (do return (.jump condition name, ← commandEnd rest) : EditReading (Action × Text))
  let numbered := fun (make : Option Nat → Action) =>
    let digits := skipBlanks rest
    let (number, rest) :=
      if digits.head?.any Char.isDigit then
        let (number, rest) := wholeNumber digits
        (some number, rest)
      else (none, digits)
    (do return (make number, ← commandEnd rest) : EditReading (Action × Text))
  let written := fun (make : Bytes → Action) => do
    let (content, rest) ← addedText rest
    return (make content, rest)
  let named := fun (make : Text → Action) => do
    let (name, rest) ← fileName rest
    return (make name, rest)
  match letter with
  | '\x7b' => return (.openBlock, rest)
  | '\x7d' => plain .closeBlock
  | ':' =>
    match labelName rest with
    | ([], rest) => fail .missingLabel rest
    | (name, rest) => return (.label name, rest)
  | 'b' => jump .always
  | 't' => jump .ifReplaced
  | 'T' => jump .unlessReplaced
  | 's' => substitution isExtended rest
  | 'y' => transliteration rest
  | 'd' => plain .delete
  | 'D' => plain .deleteFirst
  | 'p' => plain .print
  | 'P' => plain .printFirst
  | 'l' => numbered .list
  | '=' => plain .lineNumber
  | 'F' => plain .fileName
  | 'n' => plain .next
  | 'N' => plain .joinNext
  | 'h' => plain .hold
  | 'H' => plain .holdMore
  | 'g' => plain .takeHeld
  | 'G' => plain .addHeld
  | 'x' => plain .exchange
  | 'z' => plain .clear
  | 'a' => written .append
  | 'i' => written .insert
  | 'c' => written .change
  | 'q' => numbered fun code => .quit (code.getD 0) true
  | 'Q' => numbered fun code => .quit (code.getD 0) false
  | 'r' => named .read
  | 'w' => named .write
  | 'W' => named .writeFirst
  | _ => fail (.unknownCommand letter) rest

/-- The edits that have been read, latest first, and for each open block, innermost first, the
number of the part of the script that opens it. -/
structure EditsRead where
  edits : List Edit
  blocks : List Nat

/-- Reads the edits of the part of a script that has the given number; `fuel` is more than the
length. -/
def editsFrom (isExtended : Bool) (part : Nat) (before : EditsRead) :
    Nat → Text → EditReading EditsRead
  | 0, rest => fail .missingCommand rest
  | fuel + 1, text => do
    match text.dropWhile fun c => isCommandBlank c || c = ';' with
    | [] => return before
    | '#' :: rest => editsFrom isExtended part before fuel (rest.dropWhile (· ≠ '\n'))
    | text =>
      let (selection, rest) ← selection isExtended text
      let rest := skipBlanks rest
      let isNegated := rest.head? = some '!'
      let rest := if isNegated then skipBlanks (rest.drop 1) else rest
      match rest with
      | [] => fail .missingCommand []
      | letter :: rest =>
        if letter = '!' then fail .repeatedNegation rest
        let isAddressed := match selection with
          | .all => false
          | _ => true
        let isRange := match selection with
          | .range _ _ => true
          | _ => false
        match letter with
        | '#' => if isAddressed then fail .addressedComment rest
        | ':' => if isAddressed then fail .addressedLabel rest
        | '\x7d' =>
          if before.blocks.isEmpty then fail .strayBlockEnd rest
          if isAddressed then fail .addressedBlockEnd rest
        | 'q' | 'Q' => if isRange then fail .tooManyAddresses rest
        | _ => pure ()
        let (action, rest) ← action isExtended letter rest
        let blocks := match action with
          | .openBlock => part :: before.blocks
          | .closeBlock => before.blocks.drop 1
          | _ => before.blocks
        let edit : Edit := ⟨before.edits.length, selection, isNegated, action⟩
        editsFrom isExtended part ⟨edit :: before.edits, blocks⟩ fuel rest

/-- Whether the edits have a label of the given name. -/
def hasLabel (edits : List Edit) (name : Text) : Bool :=
  edits.any fun edit =>
    match edit.action with
    | .label other => other = name
    | _ => false

/-- The label of a jump that none of the edits has. -/
def missingLabel? (edits : List Edit) : Option Text :=
  edits.findSome? fun edit =>
    match edit.action with
    | .jump _ name => if name.isEmpty || hasLabel edits name then none else some name
    | _ => none

/-- A fault in a script, with the number of its part and the place in that. -/
structure PlacedFault where
  fault : EditingFault
  part : Nat
  place : Nat

/-- Whether a part of a script goes on in the next one: its last character is a backslash that does
not belong to another one. -/
def goesOn (part : Text) : Bool :=
  (part.reverse.takeWhile (· = '\\')).length % 2 = 1

/-- Reads the parts of a script, of which the first has the given number. -/
def editsOfParts (isExtended : Bool) (number : Nat) (before : EditsRead) :
    List Text → Except PlacedFault EditsRead
  | [] => .ok before
  | part :: parts =>
    match editsFrom isExtended number before (part.length + 1) part, parts with
    | .error (fault, left), _ => .error ⟨fault, number, part.length - left⟩
    | .ok read, [] => .ok read
    | .ok read, next :: parts =>
      if goesOn part then
        editsOfParts isExtended (number + 1) before ((part ++ '\n' :: next) :: parts)
      else editsOfParts isExtended (number + 1) read (next :: parts)
termination_by parts => parts.length

/-- Reads a script that is given in parts. -/
def editsOf (isExtended : Bool) (parts : List Text) : Except PlacedFault (List Edit) := do
  let read ← editsOfParts isExtended 1 ⟨[], []⟩ parts
  if let number :: _ := read.blocks then throw ⟨.openBlock, number, 0⟩
  let edits := read.edits.reverse
  match missingLabel? edits with
  | some name => throw ⟨.unknownLabel name, 0, 0⟩
  | none => return edits

end Marginalia.Program
