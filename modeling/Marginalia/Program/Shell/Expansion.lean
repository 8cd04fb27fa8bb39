import Marginalia.Program.Shell.Arithmetic
import Marginalia.Program.Shell.Glob

/-! # Words and redirections

Before a command is run, its words are expanded to fields: parameters, expressions and the outputs
of scripts are put in, and separators in them divide fields unless they are quoted.  Then its
redirections say where it reads from and where its channels go.
-/
namespace Marginalia.Program

open Text

/-! ## Fields -/

/-- The fields of a word so far, latest first; the field under way; and whether a blank has ended
the last field, so that another separator need not. -/
structure Fields where
  fields : List Bytes
  current : Option Bytes
  isAfterBlank : Bool

namespace Fields

/-- No fields. -/
def empty : Fields :=
  ⟨[], none, false⟩

/-- Ends the field under way. -/
def close (fields : Fields) : Fields :=
  match fields.current with
  | none => fields
  | some current => { fields with fields := current :: fields.fields, current := none }

/-- Adds bytes to the field under way. -/
def add (fields : Fields) (content : Bytes) : Fields :=
  { fields with current := some (fields.current.getD [] ++ content), isAfterBlank := false }

/-- Adds bytes unless there are none. -/
def addSome (fields : Fields) (content : Bytes) : Fields :=
  if content.isEmpty then fields else fields.add content

/-- Adds bytes in which separators divide fields; `front` holds the latest bytes, latest first. -/
def addSplit (separators : Bytes) (fields : Fields) (front : Bytes) : Bytes → Fields
  | [] => fields.addSome front.reverse
  | b :: rest =>
    if !separators.contains b then fields.addSplit separators (b :: front) rest
    else
      let fields := fields.addSome front.reverse
      if b = 0x20 || b = 0x09 || b = 0x0A then
        let isAfterBlank := fields.isAfterBlank || fields.current.isSome
        { fields.close with isAfterBlank }.addSplit separators [] rest
      else if fields.current.isNone && fields.isAfterBlank then
        { fields with isAfterBlank := false }.addSplit separators [] rest
      else { (fields.add []).close with isAfterBlank := false }.addSplit separators [] rest

/-- Adds texts, each a field of its own. -/
def addEach (add : Fields → Bytes → Fields) (fields : Fields) : List Bytes → Fields
  | [] => fields
  | [content] => add fields content
  | content :: contents => (add fields content).close.addEach add contents

/-- The fields in order. -/
def toList (fields : Fields) : List Bytes :=
  fields.close.fields.reverse

end Fields

/-! ## Words -/

/-- How a text is run as a script within a script: the number is that of its first line, and the
truth value tells whether the scripts within its words are known to be scripts. -/
abbrev Nested := Bool → Nat → Text → State → State

/-- Runs what is set for the end of the script. -/
def State.atExit (nested : Nested) (state : State) : State :=
  match state.finish, state.traps.lookup 0 with
  | some (.killed _), _ | some .never, _ | _, none => state
  | _, some action =>
    let code := state.finalCode
    let traps := state.traps.filter fun trap => trap.1 ≠ 0
    let after := nested false 1 action { state with finish := none, code, traps }
    match after.finish with
    | some _ => after
    | none => after.exit code

/-- The output of a script within a script, without the line feeds at its end. -/
def captured (nested : Nested) (script : InnerScript) (state : State) : Bytes × State :=
  let inner := (nested true script.line script.text state.inner).atExit nested
  let inner := { inner with code := inner.finalCode }
  let output := (inner.writtenTo .output).reverse.dropWhile (· = lineFeed) |>.reverse
  let errors := inner.written.filter fun written => written.1 ≠ .output
  let after := { state.resume inner with code := state.code, outputCode := inner.code }
  (output, after.writeAll errors)

/-- The part as if it stood between quotes. -/
def Part.quoted : Part → Part
  | text content _ => .text content true
  | parameter name change _ => .parameter name change true
  | output script _ => .output script true
  | arithmetic expression _ => .arithmetic expression true

/-- Whether what the part stands for is quoted. -/
def Part.isQuoted : Part → Bool
  | text _ isQuoted | parameter _ _ isQuoted | output _ isQuoted | arithmetic _ isQuoted => isQuoted

/-- What a part of a word stands for: texts, each a field of its own. -/
structure Expanded where
  contents : List Bytes
  /-- Whether separators do not divide fields. -/
  isWhole : Bool

mutual

/-- Expands a part of a word in the given line; `fuel` bounds the words within words. -/
def Part.expand (nested : Nested) (line : Nat) (fuel : Nat) (state : State) (part : Part) :
    List Expanded × State :=
  match fuel with
  | 0 => ([], state)
  | fuel + 1 =>
    match part with
    | .text content _ => ([⟨[Utf8.encode content], true⟩], state)
    | .output script isQuoted =>
      let (content, state) := captured nested script state
      ([⟨[content], isQuoted⟩], state)
    | .arithmetic expression isQuoted =>
      let word := Word.ofQuoted line .document expression
      let (content, state) := expandWhole nested line fuel state word
      let text := Utf8.decodeLossy content
      match evaluate state text with
      | .ok (value, state) => ([⟨[decimalOf value], isQuoted⟩], state)
      | .error fault => ([], state.complainFatally line (fault.message text))
    | .parameter name change isQuoted =>
      let value := state.value? name
      let plain := fun _ : Unit =>
        if name = ['@'] || name = ['*'] && !isQuoted then [⟨state.arguments, isQuoted⟩]
        else [⟨[value.getD []], isQuoted⟩]
      let operand := fun text =>
        if isQuoted && text.isEmpty then ([⟨[[]], true⟩], state)
        else expandParts nested line true fuel state (Word.ofOperand line isQuoted text)
      let isMissing := fun countsEmpty =>
        value.isNone || countsEmpty && value.any List.isEmpty
      let unset := fun _ : Unit =>
        if state.needsValues && value.isNone && name ≠ ['@'] && name ≠ ['*'] then
          some (state.complainFatally line (String.ofList name ++ ": parameter not set"))
        else none
      let trimmed := fun (text : Text) (trim : Glob → Bytes → Bytes) =>
        match unset () with
        | some state => ([], state)
        | none =>
          let (glob, state) := expandGlob nested line fuel state (Word.ofOperand line false text)
          ([⟨[trim glob (value.getD [])], isQuoted⟩], state)
      match change with
      | .unchanged =>
        match unset () with
        | some state => ([], state)
        | none => (plain (), state)
      | .length =>
        match unset () with
        | some state => ([], state)
        | none => ([⟨[decimalOf (value.getD []).length], isQuoted⟩], state)
      | .orElse countsEmpty text =>
        if isMissing countsEmpty then operand text else (plain (), state)
      | .orAssign countsEmpty text =>
        if isMissing countsEmpty then
          let (content, state) :=
            expandWhole nested line fuel state (Word.ofOperand line isQuoted text)
          if isName name then
            ([⟨[content], isQuoted⟩], state.assign line state.speaker name (some content))
          else ([], state.complainFatally line (String.ofList name ++ ": bad variable name"))
        else (plain (), state)
      | .orFail countsEmpty text =>
        if isMissing countsEmpty then
          let (content, state) :=
            expandWhole nested line fuel state (Word.ofOperand line isQuoted text)
          let reason := if text.isEmpty then
              if countsEmpty then "parameter not set or null" else "parameter not set"
            else textOf content
          ([], state.complainFatally line (String.ofList name ++ ": " ++ reason))
        else (plain (), state)
      | .ifPresent countsEmpty text =>
        if isMissing countsEmpty then ([⟨[[]], isQuoted⟩], state) else operand text
      | .withoutStart isLongest text => trimmed text fun glob => glob.dropFront isLongest
      | .withoutEnd isLongest text => trimmed text fun glob => glob.dropBack isLongest
      | .invalid => ([], state.complainFatally line "Bad substitution")

/-- Expands the parts of a word; in an operand, separators in text divide fields too. -/
def expandParts (nested : Nested) (line : Nat) (isOperand : Bool) (fuel : Nat) (state : State)
    (word : Word) : List Expanded × State :=
  match fuel with
  | 0 => ([], state)
  | fuel + 1 =>
    word.foldl (fun (expanded, state) part =>
      if state.finish.isSome then (expanded, state)
      else
        let (more, state) := part.expand nested line fuel state
        let more := if isOperand && !part.isQuoted then
            more.map fun expanded => { expanded with isWhole := false }
          else more
        (expanded ++ more, state)) ([], state)

/-- Expands a word to bytes that nothing divides. -/
def expandWhole (nested : Nested) (line : Nat) (fuel : Nat) (state : State) (word : Word) :
    Bytes × State :=
  match fuel with
  | 0 => ([], state)
  | fuel + 1 =>
    let (expanded, state) := expandParts nested line false fuel state word
    ((expanded.flatMap fun part => part.contents.intersperse [0x20]).flatten, state)

/-- Expands a word to a pattern. -/
def expandGlob (nested : Nested) (line : Nat) (fuel : Nat) (state : State) (word : Word) :
    Glob × State :=
  match fuel with
  | 0 => ([], state)
  | fuel + 1 =>
    let (content, state) := word.foldl (fun (content, state) part =>
      let (bytes, state) := expandWhole nested line fuel state [part]
      (content ++ bytes.map (·, part.isQuoted), state)) (([], state) : List (UInt8 × Bool) × State)
    (Glob.ofBytes content, state)

end

/-- Words are nested at most this deep. -/
def greatestDepth : Nat := 1000

/-- Adds what a part of a word stands for to the fields. -/
def Fields.addExpanded (separators : Bytes) (fields : Fields) (expanded : Expanded) : Fields :=
  if expanded.isWhole then fields.addEach Fields.add expanded.contents
  else
    fields.addEach (fun fields content => fields.addSplit separators [] content) expanded.contents

/-- Expands words to fields. -/
def expand (nested : Nested) (line : Nat) (state : State) (words : List Word) :
    List Bytes × State :=
  let (fields, state) := words.foldl (fun (fields, state) (word : Word) =>
    let (expanded, state) := expandParts nested line false greatestDepth state word
    let fields := expanded.foldl (Fields.addExpanded state.separators) fields
    ({ fields.close with isAfterBlank := false }, state)) (Fields.empty, state)
  (fields.toList, state)

/-- Expands a word to one text. -/
def Word.expandWhole (nested : Nested) (line : Nat) (state : State) (word : Word) :
    Bytes × State :=
  Program.expandWhole nested line greatestDepth state word

/-- Expands a word to a pattern. -/
def Word.expandGlob (nested : Nested) (line : Nat) (state : State) (word : Word) :
    Glob × State :=
  Program.expandGlob nested line greatestDepth state word

/-! ## Redirections -/

/-- Why a redirection cannot be followed. -/
inductive RoutingFault where
  | unreadable (name : Bytes)
  | unwritable (name : Bytes) (reason : String)
  | closed (descriptor : Nat)
  | noDescriptor

namespace RoutingFault

/-- The fault in words. -/
def message : RoutingFault → String
  | unreadable name => "cannot open " ++ textOf name ++ ": No such file"
  | unwritable name reason => "cannot create " ++ textOf name ++ ": " ++ reason
  | closed descriptor => String.ofList (decimal descriptor) ++ ": Bad file descriptor"
  | noDescriptor => "Syntax error: Bad fd number"

/-- Whether the fault ends the script. -/
def isFatal : RoutingFault → Bool
  | noDescriptor => true
  | _ => false

end RoutingFault

/-- The state after a redirection to a target. -/
def State.redirect (state : State) (redirection : Redirection) (target : Bytes) :
    Except RoutingFault State :=
  let take := fun content : Bytes =>
    if redirection.descriptor = 0 then { state with input := content }
    else state.withTarget redirection.descriptor .nowhere
  let goTo := fun target => state.withTarget redirection.descriptor target
  match redirection.sign with
  | .read =>
    match source? (textOf target) state.input with
    | some (.finite content, _) => .ok (take content)
    | _ => .error (.unreadable target)
  | .write =>
    match textOf target with
    | "/dev/stdout" => .ok (goTo (state.target 1))
    | "/dev/stderr" => .ok (goTo (state.target 2))
    | name =>
      match creationFault? name with
      | some reason => .error (.unwritable target reason)
      | none => .ok (goTo .nowhere)
  | .duplicate =>
    match target with
    | [0x2D] =>
      .ok (if redirection.descriptor = 0 then { state with input := [] } else goTo .closed)
    | [b] =>
      let number := b.toNat - 0x30
      if b < 0x30 || 0x39 < b then .error .noDescriptor
      else
        match state.target number with
        | .closed => .error (.closed number)
        | target => .ok (if redirection.descriptor = 0 then state else goTo target)
    | _ => .error .noDescriptor
  | .document => .ok (take target)

/-- Whether a redirection gives a command an input of its own. -/
def Redirection.givesInput (redirection : Redirection) (target : Option Bytes) : Bool :=
  redirection.descriptor = 0 && (redirection.sign ≠ .duplicate || target = some [0x2D])

/-- The targets of redirections in order, but for those of documents. -/
def expandTargets (nested : Nested) (line : Nat) (redirections : List Redirection)
    (state : State) : List (Redirection × Option Bytes) × State :=
  let (targets, state) := redirections.foldl
    (fun ((targets : List (Redirection × Option Bytes)), (state : State)) redirection =>
      if state.finish.isSome || redirection.sign = .document then
        ((redirection, none) :: targets, state)
      else
        let (target, state) := redirection.target.expandWhole nested line state
        ((redirection, some target) :: targets, state)) ([], state)
  (targets.reverse, state)

/-- The content of a document, which is missing where that cannot be told. -/
def expandDocument (nested : Nested) (line : Nat) (document : Word) (state : State) :
    Option Bytes × State :=
  let (content, after) := document.expandWhole nested line state
  match after.finish with
  | some (.exited code) => (none, { after with finish := none, code })
  | _ => (some content, after)

/-- Follows redirections in order, up to one that cannot be followed: whether all could, and the
state.  One that cannot be followed ends the script if `isVital`. -/
def follow (nested : Nested) (line : Nat) (isVital : Bool) :
    List (Redirection × Option Bytes) → State → Bool × State
  | [], state => (state.finish.isNone, state)
  | (redirection, target) :: redirections, state =>
    let (target, state) := match target with
      | some target => (some target, state)
      | none => expandDocument nested line redirection.target state
    match target.map (state.redirect redirection) with
    | none => (false, if isVital then state.exit 2 else state)
    | some (.ok state) => follow nested line isVital redirections state
    | some (.error fault) =>
      let state := state.complain line 2 fault.message
      (false, if isVital || fault.isFatal then state.exit 2 else state)

/-- Runs with redirections: the targets are expanded in order, and then the documents.  A target
that cannot be followed keeps the command from running, and ends the script if `isVital`; so does a
document whose content cannot be told.  The redirections end with the command, unless they are
`isLasting`. -/
def redirected (nested : Nested) (line : Nat) (isVital isLasting : Bool)
    (redirections : List Redirection) (run : State → State) (state : State) : State :=
  let (targets, state) := expandTargets nested line redirections state
  if state.finish.isSome then state
  else
    let restored := fun after : State =>
      let after := redirections.foldl (fun after redirection =>
        after.withTarget redirection.descriptor (state.target redirection.descriptor)) after
      if targets.any fun (redirection, target) => redirection.givesInput target then
        { after with input := state.input }
      else after
    let (isFollowed, followed) := follow nested line isVital targets state
    if !isFollowed then restored followed
    else if isLasting then run followed
    else restored (run followed)

end Marginalia.Program
