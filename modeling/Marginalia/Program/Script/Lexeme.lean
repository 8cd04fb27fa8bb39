import Marginalia.Program.Script.Basic

/-! # The lexemes of a script

`lexemes` cuts the text of a script into lexemes, each with the line that its end is in.  Blanks
separate words; quotes and backslashes keep characters from being read as signs; a dollar sign
begins a parameter, an expression or the output of another script.  The last lexeme is the end of
the script, or tells why it cannot be read from there on.

A script within a script has to be cut into lexemes to find the parenthesis that closes it, so words
and scripts are read by functions that call each other.
-/
namespace Marginalia.Program

/-- The sign that encloses an output in the older spelling. -/
def backquote : Char := '\x60'

/-- Whether a character may begin the name of a variable. -/
def isNameStart (c : Char) : Bool :=
  c.isAlpha || c == '_'

/-- Whether a character may stand in the name of a variable. -/
def isNamePart (c : Char) : Bool :=
  c.isAlphanum || c == '_'

/-- Whether a text is the name of a variable. -/
def isName (text : Text) : Bool :=
  text.head?.any isNameStart && text.all isNamePart

/-! ## Parts that a sign encloses -/

/-- The text before the parenthesis that closes `depth` more than are opened, and the text behind
it; parentheses in quotes do not count. -/
def enclosed? (depth : Nat) (quote : Option Char) (front : Text) : Text → Option (Text × Text)
  | [] => none
  | [c] => if c = ')' ∧ depth = 0 ∧ quote = none then some (front.reverse, []) else none
  | c :: d :: rest =>
    if c = '\\' ∧ quote ≠ some '\'' then enclosed? depth quote (d :: c :: front) rest
    else
      match quote with
      | some q => enclosed? depth (if c = q then none else quote) (c :: front) (d :: rest)
      | none =>
        if c = '\'' ∨ c = '"' then enclosed? depth (some c) (c :: front) (d :: rest)
        else if c = '(' then enclosed? (depth + 1) none (c :: front) (d :: rest)
        else if c = ')' then
          match depth with
          | 0 => some (front.reverse, d :: rest)
          | depth + 1 => enclosed? depth none (c :: front) (d :: rest)
        else enclosed? depth none (c :: front) (d :: rest)
termination_by text => text.length

/-- The text before the brace that closes `depth` more than are opened behind dollar signs, and the
text behind it; braces in quotes do not count. -/
def braced? (depth : Nat) (quote : Option Char) (front : Text) : Text → Option (Text × Text)
  | [] => none
  | [c] => if c = '\x7d' ∧ depth = 0 ∧ quote = none then some (front.reverse, []) else none
  | c :: d :: rest =>
    if c = '\\' ∧ quote ≠ some '\'' then braced? depth quote (d :: c :: front) rest
    else
      match quote with
      | some q => braced? depth (if c = q then none else quote) (c :: front) (d :: rest)
      | none =>
        if c = '\'' ∨ c = '"' then braced? depth (some c) (c :: front) (d :: rest)
        else if c = '$' ∧ d = '\x7b' then braced? (depth + 1) none (d :: c :: front) rest
        else if c = '\x7d' then
          match depth with
          | 0 => some (front.reverse, d :: rest)
          | depth + 1 => braced? depth none (c :: front) (d :: rest)
        else braced? depth none (c :: front) (d :: rest)
termination_by text => text.length

/-- What the text behind the name of a parameter asks for. -/
def Change.ofText (text : Text) : Change :=
  match text with
  | [] => .unchanged
  | '#' :: '#' :: operand => .withoutStart true operand
  | '#' :: operand => .withoutStart false operand
  | '%' :: '%' :: operand => .withoutEnd true operand
  | '%' :: operand => .withoutEnd false operand
  | c :: rest =>
    let (countsEmpty, sign) := if c = ':' then (true, rest) else (false, c :: rest)
    match sign with
    | '-' :: operand => .orElse countsEmpty operand
    | '=' :: operand => .orAssign countsEmpty operand
    | '?' :: operand => .orFail countsEmpty operand
    | '+' :: operand => .ifPresent countsEmpty operand
    | _ => .invalid

/-- Whether a character is the name of a parameter that is no variable. -/
def isSpecialName (c : Char) : Bool :=
  ['@', '*', '#', '?', '$', '!', '-'].contains c

/-- The name of a parameter at the front of a text, and what follows. -/
def parameterName (text : Text) : Text × Text :=
  match text with
  | [] => ([], [])
  | c :: rest =>
    if c.isDigit then (text.takeWhile Char.isDigit, text.dropWhile Char.isDigit)
    else if isNameStart c then (text.takeWhile isNamePart, text.dropWhile isNamePart)
    else if isSpecialName c then ([c], rest)
    else ([], text)

/-- The parameter that a text between braces names. -/
def parameterOf (isQuoted : Bool) (content : Text) : Part :=
  match content with
  | '#' :: c :: rest =>
    match parameterName (c :: rest) with
    | (name, []) => .parameter name .length isQuoted
    | _ => .parameter ['#'] (Change.ofText (c :: rest)) isQuoted
  | _ =>
    match parameterName content with
    | ([], _) => .parameter [] .invalid isQuoted
    | (name, rest) => .parameter name (Change.ofText rest) isQuoted

/-- The reason why a text between quotes has no end. -/
def openQuote : String := "Unterminated quoted string"

/-- The reason why an output in the older spelling has no end. -/
def openBackquote : String := "EOF in backquote substitution"

/-- The script in the older spelling of an output, up to the sign that closes it, and what follows;
`front` holds the text before, latest first.  A backslash in front of that sign, of a dollar sign or
of another backslash falls away. -/
def backquoted? (front : Text) : Text → Option (Text × Text)
  | [] => none
  | [c] => if c = backquote then some (front.reverse, []) else none
  | c :: d :: rest =>
    if c = backquote then some (front.reverse, d :: rest)
    else if c = '\\' && ['$', backquote, '\\'].contains d then backquoted? (d :: front) rest
    else backquoted? (c :: front) (d :: rest)
termination_by text => text.length

/-! ## Quotation -/

/-- What quoted text stands in: double quotes, which end it, a document, or the operand of a
parameter between double quotes, where further quotes fall away. -/
inductive Quotation where
  | quotes
  | document
  | operand
  deriving DecidableEq

/-- How many lines end before `rest`, which a text goes on with. -/
def linesBefore (rest text : Text) : Nat :=
  (text.take (text.length - rest.length)).count '\n'

/-- Adds a part to others, latest first. -/
def Word.addPart (parts : Word) (part : Part) : Word :=
  match part, parts with
  | .text text false, .text before false :: parts => .text (before ++ text) false :: parts
  | _, _ => part :: parts

/-- The parts between quotes, of which there is at least an empty one. -/
def Word.ofQuote (parts : Word) : Word :=
  if parts.isEmpty then [.text [] true] else parts.reverse

/-! ## Documents -/

/-- A document that is announced: its number, the line that ends it, whether that was quoted, and
whether tabs in front of lines fall away. -/
structure Announced where
  number : Nat
  ending : Text
  isQuoted : Bool
  isStripped : Bool

/-- The lines of a document, latest first and each with its end, and what follows the line that ends
it, if there is one; `fuel` is more than the number of lines. -/
def Announced.lines (announced : Announced) (front : List Text) :
    Nat → Text → List Text × Option Text
  | 0, _ | _, [] => (front, none)
  | fuel + 1, text =>
    let line := text.takeWhile (· ≠ '\n')
    let rest := text.drop (line.length + 1)
    let content := if announced.isStripped then line.dropWhile (· = '\t') else line
    let isEnded := line.length < text.length
    if content = announced.ending then (front, some rest)
    else announced.lines ((if isEnded then content ++ ['\n'] else content) :: front) fuel rest

/-- A document: whether what ends it was quoted, its first line, and its text. -/
structure Document where
  isQuoted : Bool
  line : Nat
  text : Text

/-- The text of a word that ends a document, whether any of it is quoted, and what follows it;
`front` holds the text before, latest first. -/
def endingWord (front : Text) (isQuoted : Bool) : Text → Text × Bool × Text
  | [] => (front.reverse, isQuoted, [])
  | '\\' :: c :: rest => endingWord (c :: front) true rest
  | c :: rest =>
    if c = '\'' || c = '"' then endingWord front true rest
    else if [' ', '\t', '\n', ';', '&', '|', '<', '>', '(', ')'].contains c then
      (front.reverse, isQuoted, c :: rest)
    else endingWord (c :: front) isQuoted rest

/-! ## What has been read -/

/-- What has been opened in a script and not closed: a parenthesis, or a choice by patterns, which
are followed by parentheses that close nothing. -/
inductive Opening where
  | parenthesis
  | selection
  deriving DecidableEq

/-- What has been read: the lexemes, latest first; the parts of the word under way, latest first;
the line; the documents that are announced, latest first, and those that have been read; and what is
open.  A script that is nested ends where a parenthesis closes what it has not opened. -/
structure Reading where
  lexemes : List (Nat × Lexeme)
  word : Option Word
  line : Nat
  announced : List Announced
  documents : List (Nat × Document)
  openings : List Opening
  isNested : Bool

/-- The words that a command may follow. -/
def leadingWords : List String :=
  ["!", "\x7b", "do", "elif", "else", "if", "then", "until", "while"]

/-- The words that may stand in front of the end of a choice by patterns. -/
def wordsBeforeEnd : List String :=
  ["\x7d", "done", "esac", "fi", "in"]

namespace Reading

/-- The state at the start of a script in the given line. -/
def start (line : Nat) (isNested : Bool) : Reading :=
  ⟨[], none, line, [], [], [], isNested⟩

/-- Adds a lexeme. -/
def push (reading : Reading) (lexeme : Lexeme) : Reading :=
  { reading with lexemes := (reading.line, lexeme) :: reading.lexemes }

/-- Whether the latest lexeme is a sign, or one of the given words, or there is none. -/
def isAfter (reading : Reading) (words : List String) : Bool :=
  match reading.lexemes with
  | [] | (_, .sign _) :: _ => true
  | (_, .word word) :: _ => word.plain?.any fun text => words.contains (String.ofList text)
  | _ => false

/-- What is open after a word. -/
def openingsAfter (reading : Reading) (word : Word) : List Opening :=
  match word.plain?.map String.ofList, reading.openings with
  | some "case", openings =>
    if reading.isAfter leadingWords then .selection :: openings else openings
  | some "esac", .selection :: openings =>
    if reading.isAfter wordsBeforeEnd then openings else reading.openings
  | _, openings => openings

/-- Ends the word under way. -/
def endWord (reading : Reading) : Reading :=
  match reading.word with
  | none => reading
  | some parts =>
    let word := parts.reverse
    { reading.push (.word word) with word := none, openings := reading.openingsAfter word }

/-- Adds a part to the word under way. -/
def add (reading : Reading) (part : Part) : Reading :=
  { reading with word := some (Word.addPart (reading.word.getD []) part) }

/-- Adds a part to the word under way, which ends where `rest` begins. -/
def addUpTo (reading : Reading) (part : Part) (rest text : Text) : Reading :=
  { reading.add part with line := reading.line + linesBefore rest text }

/-- Ends the word under way and adds a sign. -/
def sign (reading : Reading) (sign : String) : Reading :=
  reading.endWord.push (.sign sign)

/-- Adds a parenthesis that opens something. -/
def openParenthesis (reading : Reading) : Reading :=
  let signed := reading.sign "("
  { signed with openings := .parenthesis :: signed.openings }

/-- Adds a parenthesis that closes something or follows patterns. -/
def closeParenthesis (reading : Reading) : Reading :=
  let signed := reading.sign ")"
  match signed.openings with
  | .parenthesis :: openings => { signed with openings }
  | _ => signed

/-- Adds a redirection; digits just before it are its descriptor. -/
def redirect (reading : Reading) (isInput : Bool) (sign : RedirectionSign) : Reading :=
  let digits := (reading.word.bind Word.plain?).filter fun text =>
    !text.isEmpty && text.all Char.isDigit
  match digits with
  | some digits =>
    let descriptor := digits.foldl (fun n c => n * 10 + (c.toNat - '0'.toNat)) 0
    { reading.push (.redirection descriptor sign) with word := none }
  | none => reading.endWord.push (.redirection (if isInput then 0 else 1) sign)

/-- Announces a document whose ending is at the front of a text, if there is one, and gives what
follows that. -/
def announce (reading : Reading) (isStripped : Bool) (rest : Text) : Reading × Text :=
  let (ending, isQuoted, rest) := endingWord [] false (rest.dropWhile fun c => c = ' ' || c = '\t')
  let number := reading.announced.length + reading.documents.length
  let reading := reading.redirect true .document
  if ending.isEmpty && !isQuoted then (reading, rest)
  else
    let announced := ⟨number, ending, isQuoted, isStripped⟩ :: reading.announced
    ({ reading.push (.document number) with announced }, rest)

/-- Reads the documents that are announced, after the end of a line. -/
def readDocuments (reading : Reading) (rest : Text) : Reading × Text :=
  reading.announced.reverse.foldl
    (fun (state : Reading × Text) announced =>
      let (reading, rest) := state
      let (lines, after) := announced.lines [] (rest.length + 1) rest
      let document := ⟨announced.isQuoted, reading.line, lines.reverse.flatten⟩
      let count := if after.isSome then lines.length + 1 else linesBefore [] rest
      ({ reading with
        documents := (announced.number, document) :: reading.documents
        line := reading.line + count }, after.getD []))
    ({ reading with announced := [] }, rest)

/-- The end of a line, with the documents that follow it. -/
def endLine (reading : Reading) (rest : Text) : Reading × Text :=
  ({ reading.endWord with line := reading.line + 1 }.push (.sign "\n")).readDocuments rest

/-- The end of the text. -/
def finish (reading : Reading) : Reading :=
  (reading.endWord.readDocuments []).1.push (.finish none)

/-- The end of what can be read: the rest of the text lacks something. -/
def fail (reading : Reading) (rest : Text) (reason : String) : Reading :=
  let reading := reading.endWord
  { reading with line := reading.line + linesBefore [] rest }.push (.finish (some reason))

/-- The reason why a nested script has no end. -/
def openReason (reading : Reading) : String :=
  match reading.lexemes with
  | (_, .finish (some reason)) :: _ => reason
  | _ => "end of file unexpected (expecting \")\")"

end Reading

/-! ## Words and scripts -/

mutual

/-- The part after a dollar sign in the given line, and what follows; a dollar sign may also stand
for itself.  The fault is the reason why there is no such part, and `fuel` is more than the
length. -/
def dollar (line : Nat) (isQuoted : Bool) : Nat → Text → Except String (Part × Text)
  | 0, rest => .ok (.text ['$'] isQuoted, rest)
  | _, [] => .ok (.text ['$'] isQuoted, [])
  | fuel + 1, c :: tail =>
    if c = '(' ∧ tail.head? = some '(' then
      match enclosed? 0 none [] tail with
      | none => .error "Missing '))'"
      | some (content, rest) =>
        if content.getLast? = some ')' then
          .ok (.arithmetic (content.drop 1).dropLast isQuoted, rest)
        else .error "Missing '))'"
    else if c = '(' then
      match (Reading.start line true).run fuel tail with
      | (_, some rest) =>
        let script := tail.take (tail.length - rest.length - 1)
        .ok (.output ⟨line, script, false⟩ isQuoted, rest)
      | (reading, none) => .error reading.openReason
    else if c = '\x7b' then
      match braced? 0 none [] tail with
      | none => .error (if isQuoted then openQuote else "Missing '\x7d'")
      | some (content, rest) => .ok (parameterOf isQuoted content, rest)
    else if c.isDigit || isSpecialName c then .ok (.parameter [c] .unchanged isQuoted, tail)
    else if isNameStart c then
      .ok (.parameter (c :: tail.takeWhile isNamePart) .unchanged isQuoted,
        tail.dropWhile isNamePart)
    else .ok (.text ['$'] isQuoted, c :: tail)

/-- The parts of quoted text that begins in the given line, latest first, and what follows it: text
in double quotes goes on to the closing quote, and other quoted text to its end.  `fuel` is more
than the length. -/
def quotedParts (line : Nat) (quotation : Quotation) (parts : Word) :
    Nat → Text → Except String (Word × Text)
  | 0, rest => .ok (parts, rest)
  | _, [] => if quotation = .quotes then .error openQuote else .ok (parts, [])
  | fuel + 1, c :: rest =>
    let isQuote := fun c : Char => c = '"' && quotation ≠ .document
    if isQuote c then
      if quotation = .quotes then .ok (parts, rest)
      else quotedParts line quotation parts fuel rest
    else if c = '$' then
      match dollar line true fuel rest with
      | .ok (part, after) =>
        quotedParts (line + linesBefore after rest) quotation (part :: parts) fuel after
      | .error reason => .error reason
    else if c = backquote then
      match backquoted? [] rest with
      | some (script, after) =>
        quotedParts (line + linesBefore after rest) quotation
          (.output ⟨1, script, true⟩ true :: parts) fuel after
      | none => .error openBackquote
    else if c = '\\' then
      match rest with
      | [] => quotedParts line quotation (.text [c] true :: parts) fuel []
      | d :: rest =>
        if d = '\n' then quotedParts (line + 1) quotation parts fuel rest
        else if ['$', backquote, '\\'].contains d || isQuote d then
          quotedParts line quotation (.text [d] true :: parts) fuel rest
        else quotedParts line quotation (.text [c, d] true :: parts) fuel rest
    else
      let isPlain := fun c => !isQuote c && c ≠ '$' && c ≠ backquote && c ≠ '\\'
      let text := c :: rest.takeWhile isPlain
      quotedParts (line + text.count '\n') quotation (.text text true :: parts) fuel
        (rest.dropWhile isPlain)

/-- Reads on from the rest of a text; `fuel` is more than its length.  What follows the parenthesis
that closes a nested script is given too. -/
def Reading.run (reading : Reading) : Nat → Text → Reading × Option Text
  | 0, _ | _, [] => (reading.finish, none)
  | fuel + 1, c :: rest =>
    match c with
    | '\n' =>
      let (read, rest) := reading.endLine rest
      read.run fuel rest
    | ' ' | '\t' => reading.endWord.run fuel rest
    | '\'' =>
      match Text.split? ['\''] rest with
      | some (text, after) => (reading.addUpTo (.text text true) after rest).run fuel after
      | none => (reading.fail rest openQuote, none)
    | '"' =>
      match quotedParts reading.line .quotes [] fuel rest with
      | .ok (parts, after) =>
        let added := parts.ofQuote.foldl Reading.add reading
        { added with line := reading.line + linesBefore after rest }.run fuel after
      | .error reason => (reading.fail rest reason, none)
    | '\\' =>
      match rest with
      | [] => (reading.add (.text ['\\'] true)).run fuel []
      | '\n' :: rest => { reading with line := reading.line + 1 }.run fuel rest
      | d :: rest => (reading.add (.text [d] true)).run fuel rest
    | '$' =>
      match dollar reading.line false fuel rest with
      | .ok (part, after) => (reading.addUpTo part after rest).run fuel after
      | .error reason => (reading.fail rest reason, none)
    | ';' =>
      match rest with
      | ';' :: rest => (reading.sign ";;").run fuel rest
      | _ => (reading.sign ";").run fuel rest
    | '(' => reading.openParenthesis.run fuel rest
    | ')' =>
      if reading.isNested && reading.endWord.openings.isEmpty then (reading.finish, some rest)
      else reading.closeParenthesis.run fuel rest
    | '&' =>
      match rest with
      | '&' :: rest => (reading.sign "&&").run fuel rest
      | _ => (reading.sign "&").run fuel rest
    | '|' =>
      match rest with
      | '|' :: rest => (reading.sign "||").run fuel rest
      | _ => (reading.sign "|").run fuel rest
    | '<' =>
      match rest with
      | '<' :: '-' :: rest =>
        let (reading, rest) := reading.announce true rest
        reading.run fuel rest
      | '<' :: rest =>
        let (reading, rest) := reading.announce false rest
        reading.run fuel rest
      | '&' :: rest => (reading.redirect true .duplicate).run fuel rest
      | _ => (reading.redirect true .read).run fuel rest
    | '>' =>
      match rest with
      | '&' :: rest => (reading.redirect false .duplicate).run fuel rest
      | '>' :: rest => (reading.redirect false .write).run fuel rest
      | '|' :: rest => (reading.redirect false .write).run fuel rest
      | _ => (reading.redirect false .write).run fuel rest
    | _ =>
      if c = backquote then
        match backquoted? [] rest with
        | some (script, after) =>
          (reading.addUpTo (.output ⟨1, script, true⟩ false) after rest).run fuel after
        | none => (reading.fail rest openBackquote, none)
      else if c = '#' && reading.word.isNone then
        reading.run fuel (rest.dropWhile (· ≠ '\n'))
      else (reading.add (.text [c] false)).run fuel rest

end

/-! ## Quoted text and operands -/

/-- The parts of a text in the given line that is quoted as a whole; one that cannot be read is
taken as it is. -/
def Word.ofQuoted (line : Nat) (quotation : Quotation) (text : Text) : Word :=
  match quotedParts line quotation [] (text.length + 1) text with
  | .ok (parts, _) => parts.reverse
  | .error _ => [.text text true]

/-- The parts of the text of an operand in the given line, latest first; `fuel` is more than its
length. -/
def operandParts (line : Nat) (parts : Word) : Nat → Text → Word
  | 0, _ | _, [] => parts
  | fuel + 1, c :: rest =>
    let literal := fun _ : Unit => operandParts line (parts.addPart (.text [c] false)) fuel rest
    match c with
    | '\'' =>
      match Text.split? ['\''] rest with
      | some (text, rest) => operandParts line (.text text true :: parts) fuel rest
      | none => literal ()
    | '"' =>
      match quotedParts line .quotes [] fuel rest with
      | .ok (quoted, rest) =>
        operandParts line (quoted.ofQuote.foldl Word.addPart parts) fuel rest
      | .error _ => literal ()
    | '\\' =>
      match rest with
      | [] => literal ()
      | d :: rest => operandParts line (.text [d] true :: parts) fuel rest
    | '$' =>
      match dollar line false fuel rest with
      | .ok (part, rest) => operandParts line (parts.addPart part) fuel rest
      | .error _ => literal ()
    | _ =>
      if c = backquote then
        match backquoted? [] rest with
        | some (script, rest) =>
          operandParts line (.output ⟨1, script, true⟩ false :: parts) fuel rest
        | none => literal ()
      else literal ()

/-- The word that the text of an operand in the given line stands for. -/
def Word.ofOperand (line : Nat) (isQuoted : Bool) (text : Text) : Word :=
  if isQuoted then Word.ofQuoted line .operand text
  else (operandParts line [] (text.length + 1) text).reverse

/-! ## Lexemes -/

/-- The word that a document stands for. -/
def Document.word (document : Document) : Word :=
  if document.isQuoted then [.text document.text true]
  else Word.ofQuoted document.line .document document.text

/-- The lexemes of a script that begins in the given line. -/
def lexemes (line : Nat) (script : Text) : List (Nat × Lexeme) :=
  let (reading, _) := (Reading.start line false).run (script.length + 1) script
  reading.lexemes.reverse.map fun (line, lexeme) =>
    match lexeme with
    | .document number =>
      (line, .word (((reading.documents.lookup number).map Document.word).getD []))
    | _ => (line, lexeme)

end Marginalia.Program
