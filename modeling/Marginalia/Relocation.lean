import Marginalia.Context
import Marginalia.Diagnostic
import Marginalia.Latex.Scan
import Marginalia.Warning

/-! # Relocation of margin notes

A margin note cannot stand in a restricted context.  One pass over the rendered text tracks its
groups, bracketed arguments and environments; every note inside a restricted context is taken out
and put back right after the outermost such context.

A group belongs to the command whose argument it is, its opener.  After an argument has closed, the
next group may be a further argument of the same command, so notes wait until no argument follows.

The pass fails where a brace closes no group, where a group is still open at the end, and where a
note lacks one of its arguments.  `step_length` says that every step reads on, so the pass ends.
-/
namespace Marginalia

open Text Latex

/-- Why the groups of a rendered text do not balance. -/
inductive BoundaryError where
  /-- The brace at the given byte closes no group. -/
  | unbalancedClose (offset : Nat)
  /-- Groups are open at the end, the innermost from the given byte on. -/
  | unclosedGroup (depth offset : Nat)
  /-- The note at the given byte lacks an argument. -/
  | malformedNote (offset : Nat)
  deriving DecidableEq, Repr

/-- What is told of the error. -/
def BoundaryError.diagnostic : BoundaryError → Diagnostic
  | unbalancedClose offset =>
    { message := s!"closing brace at byte {offset} has no matching open group"
      code := "gloss::boundary::unbalanced_close"
      help := none
      labels := some [⟨offset, 1, "unmatched"⟩] }
  | unclosedGroup depth offset =>
    { message := s!"{depth} group(s) still open at end of output"
      code := "gloss::boundary::unclosed"
      help := none
      labels := some [⟨offset, 1, "innermost open group starts here"⟩] }
  | malformedNote offset =>
    { message := s!"margin note at byte {offset} has unbalanced arguments"
      code := "gloss::boundary::malformed_note"
      help := none
      labels := some [⟨offset, 6, "note starts here"⟩] }

namespace Relocation

/-- The two kinds of delimiters around an argument. -/
inductive Delimiter where
  | brace
  | bracket
  deriving DecidableEq, Repr

/-- An open group: its delimiter, the command whose argument it is, and the byte where it
opened. -/
structure Frame where
  delimiter : Delimiter
  opener : Option String
  offset : Nat
  deriving DecidableEq, Repr

/-- The outermost restricted context that is open, by the number of groups or environments open
around it. -/
inductive Hold where
  | frame (depth : Nat)
  | env (depth : Nat)
  deriving DecidableEq, Repr

/-- The state of the pass. -/
structure State where
  /-- The open groups, the innermost first. -/
  frames : List Frame
  /-- The names of the open environments, the innermost first. -/
  envs : List String
  /-- The outermost restricted context. -/
  hold : Option Hold
  /-- An argument of a restricted command has just closed and another one follows. -/
  rearm : Bool
  /-- The command whose argument may come next. -/
  pending : Option String
  /-- The notes that were taken out and wait, in order. -/
  stash : List Text
  /-- What has been written, the latest piece first. -/
  written : List Text
  /-- The number of bytes read. -/
  offset : Nat
  /-- The warnings, the latest first. -/
  warnings : List Warning

namespace State

/-- The state before the first character. -/
def start : State :=
  ⟨[], [], none, false, none, [], [], 0, []⟩

/-- Copies a piece that was read. -/
def emit (state : State) (piece : Text) : State :=
  { state with
    written := piece :: state.written
    offset := state.offset + piece.byteLength }

/-- Takes out a note that was read. -/
def lift (state : State) (note : Text) : State :=
  { state with
    stash := state.stash ++ [note]
    offset := state.offset + note.byteLength }

/-- Writes the notes that wait. -/
def flush (state : State) : State :=
  { state with
    written := state.stash.reverse ++ state.written
    stash := [] }

/-- What has been written. -/
def output (state : State) : Text :=
  state.written.reverse.flatten

/-- The state with the given command before its next argument. -/
def awaiting (state : State) (pending : Option String) : State :=
  { state with pending }

/-- Opens a group for the command that waits for its argument. -/
def openFrame (state : State) (contexts : Contexts) (delimiter : Delimiter) : State :=
  let opener := state.pending
  let isRestricted := opener.any fun name => contexts.classify name = .restricted
  { state with
    hold :=
      if state.hold.isNone && (isRestricted || state.rearm) then some (.frame state.frames.length)
      else state.hold
    rearm := false
    pending := none
    frames := ⟨delimiter, opener, state.offset⟩ :: state.frames }

/-- The innermost command around this place that no table lists. -/
def unknownContext? (state : State) (contexts : Contexts) : Option String :=
  (state.frames.filterMap Frame.opener).find? fun name => contexts.classify name = .unknown

/-- Begins an environment. -/
def beginEnv (state : State) (contexts : Contexts) (env : String) : State :=
  { state with
    hold :=
      if state.hold.isNone && contexts.isRestrictedEnvironment env then
        some (.env state.envs.length)
      else state.hold
    envs := env :: state.envs
    pending := some "begin" }

/-- The environments left open when the innermost one of the given name ends. -/
def closeEnv (env : String) (envs : List String) : List String :=
  if envs.contains env then (envs.dropWhile (· != env)).tail else envs

/-- Ends an environment; notes held for it are written after its end. -/
def endEnv (state : State) (env : String) : State :=
  let state := { state with envs := closeEnv env state.envs, pending := none }
  match state.hold with
  | some (.env depth) =>
    if state.envs.length ≤ depth then { state.flush with hold := none } else state
  | _ => state

/-- Whether an argument follows. -/
def argumentFollows (text : Text) : Bool :=
  match skipBlanks text with
  | c :: _ => c = '\x7b' || c = '['
  | [] => false

/-- Closes the innermost group, before the given text. -/
def closeFrame (state : State) (frame : Frame) (outer : List Frame) (rest : Text) : State :=
  let state := { state with frames := outer, pending := frame.opener }
  if state.hold = some (.frame outer.length) then
    let state := { state with hold := none }
    -- Between two arguments of one command there is no place for a note.
    if argumentFollows rest then { state with rearm := true } else state.flush
  else state

/-- Writes the notes that wait for a further argument if the next character begins none. -/
def settle (state : State) (c : Char) : State :=
  if state.rearm && !(c = '\x7b' || c = '[' || isTexBlank c) then
    { state.flush with rearm := false }
  else state

end State

/-- The outcome of a step: the state and the text that is left, or an error. -/
inductive Step where
  | next (state : State) (rest : Text)
  | failed (error : BoundaryError)

/-- The name of an environment after a beginning or an end, and what follows it. -/
def environmentName? (text : Text) : Option (String × Text) :=
  (readGroup? (skipBlanks text)).map fun (name, rest) => (String.ofList (trim name), rest)

/-- What follows the two arguments of a note. -/
def noteEnd? (text : Text) : Option Text :=
  match readGroup? (skipBlanks text) with
  | some (_, rest) => (readGroup? (skipBlanks rest)).map Prod.snd
  | none => none

/-- Reads a control word of the given name; `whole` begins at its backslash and `rest` follows the
name. -/
def word (contexts : Contexts) (state : State) (whole : Text) (name : String) (rest : Text) :
    Step :=
  if name = "verb" then
    let after := dropVerb rest
    .next ((state.emit (upTo whole after)).awaiting none) after
  else if name = "annot" then
    match noteEnd? rest with
    | none => .failed (.malformedNote state.offset)
    | some after =>
      let note := upTo whole after
      -- Only a restricted context takes a note out; an unknown one is reported.
      if state.hold.isSome then .next ((state.lift note).awaiting none) after
      else
        let state := match state.unknownContext? contexts with
          | some command =>
            { state with
              warnings := .noteInUnclassified command state.offset :: state.warnings }
          | none => state
        .next ((state.emit note).awaiting none) after
  else if name = "begin" ∨ name = "end" then
    match environmentName? rest with
    | none => .next ((state.emit (upTo whole rest)).awaiting none) rest
    | some (env, after) =>
      let state := state.emit (upTo whole after)
      .next (if name = "begin" then state.beginEnv contexts env else state.endEnv env) after
  else
    let after := match rest with
      | '*' :: tail => tail
      | _ => rest
    .next ((state.emit (upTo whole after)).awaiting (some name)) after

/-- Reads a control sequence after its backslash. -/
def control (contexts : Contexts) (state : State) (text : Text) : Step :=
  let whole := '\\' :: text
  match Verbatim.begins? whole with
  | some (env, body) =>
    let after := (env.end? body).getD []
    .next ((state.emit (upTo whole after)).awaiting none) after
  | none =>
    match readControl text with
    | (.word name, rest) => word contexts state whole name rest
    | (_, rest) => .next ((state.emit (upTo whole rest)).awaiting none) rest

/-- Reads a closing brace or bracket. -/
def close (state : State) (delimiter : Delimiter) (c : Char) (text : Text) : Step :=
  match state.frames with
  | frame :: outer =>
    if frame.delimiter = delimiter then .next ((state.emit [c]).closeFrame frame outer text) text
    else if delimiter = .brace then .failed (.unbalancedClose state.offset)
    else .next ((state.emit [c]).awaiting none) text
  | [] =>
    if delimiter = .brace then .failed (.unbalancedClose state.offset)
    else .next ((state.emit [c]).awaiting none) text

/-- Reads what the character `c` begins. -/
def step (contexts : Contexts) (state : State) (c : Char) (text : Text) : Step :=
  let state := state.settle c
  match c with
  | '%' =>
    let rest := dropComment text
    .next (state.emit (upTo (c :: text) rest)) rest
  | '\\' => control contexts state text
  | '{' => .next ((state.openFrame contexts .brace).emit [c]) text
  | '[' =>
    -- A bracket opens an argument only behind a command, and only if it closes.
    if state.pending.isSome && (readBracket? (c :: text)).isSome then
      .next ((state.openFrame contexts .bracket).emit [c]) text
    else .next ((state.emit [c]).awaiting none) text
  | '}' => close state .brace c text
  | ']' => close state .bracket c text
  | _ =>
    if isTexBlank c then
      let run := c :: text.takeWhile isTexBlank
      let state := state.emit run
      -- A paragraph break ends a list of arguments.
      .next (if 2 ≤ run.count '\n' then state.awaiting none else state)
        (text.dropWhile isTexBlank)
    else .next ((state.emit [c]).awaiting none) text

theorem environmentName?_length {text rest : Text} {env : String}
    (h : environmentName? text = some (env, rest)) : rest.length ≤ text.length := by
  obtain ⟨⟨name, r⟩, hr, heq⟩ := Option.map_eq_some_iff.mp h
  obtain ⟨_, rfl⟩ := Prod.mk.inj heq
  have := readGroup?_length hr
  have := (skipBlanks_suffix text).length_le
  omega

theorem noteEnd?_length {text rest : Text} (h : noteEnd? text = some rest) :
    rest.length ≤ text.length := by
  unfold noteEnd? at h
  split at h
  · next body r hr =>
    obtain ⟨⟨body', r'⟩, hr', rfl⟩ := Option.map_eq_some_iff.mp h
    have := readGroup?_length hr
    have := readGroup?_length hr'
    have := (skipBlanks_suffix text).length_le
    have := (skipBlanks_suffix r).length_le
    simp only at *
    omega
  · simp at h

theorem word_length {contexts : Contexts} {state after : State} {whole rest left : Text}
    {name : String} (h : word contexts state whole name rest = .next after left) :
    left.length ≤ rest.length := by
  unfold word at h
  split at h
  · obtain ⟨_, rfl⟩ := Step.next.inj h
    exact (dropVerb_suffix rest).length_le
  · split at h
    · split at h
      · simp at h
      · next hnote =>
        dsimp only at h
        split at h <;> (obtain ⟨_, rfl⟩ := Step.next.inj h; exact noteEnd?_length hnote)
    · split at h
      · split at h
        · obtain ⟨_, rfl⟩ := Step.next.inj h
          exact Nat.le_refl _
        · next henv =>
          obtain ⟨_, rfl⟩ := Step.next.inj h
          exact environmentName?_length henv
      · obtain ⟨_, rfl⟩ := Step.next.inj h
        split <;> simp

theorem control_length {contexts : Contexts} {state after : State} {text left : Text}
    (h : control contexts state text = .next after left) : left.length ≤ text.length := by
  unfold control at h
  dsimp only at h
  split at h
  · next env body hb =>
    obtain ⟨_, rfl⟩ := Step.next.inj h
    have hlen := congrArg List.length (Verbatim.eq_append_of_begins? hb)
    have hne : 0 < env.opening.length := by cases env <;> decide
    have hend : ((env.end? body).getD []).length ≤ body.length := by
      cases hr : env.end? body with
      | none => simp
      | some rest => exact (Verbatim.end?_suffix hr).length_le
    simp at hlen
    omega
  · have hread := (readControl_suffix text).length_le
    split at h
    · next name rest hr =>
      rw [hr] at hread
      exact Nat.le_trans (word_length h) hread
    · next rest hr _ =>
      obtain ⟨_, rfl⟩ := Step.next.inj h
      simp_all

theorem close_length {state after : State} {delimiter : Delimiter} {c : Char} {text left : Text}
    (h : close state delimiter c text = .next after left) : left.length ≤ text.length := by
  unfold close at h
  split at h
  · split at h
    · obtain ⟨_, rfl⟩ := Step.next.inj h
      exact Nat.le_refl _
    · split at h
      · simp at h
      · obtain ⟨_, rfl⟩ := Step.next.inj h
        exact Nat.le_refl _
  · split at h
    · simp at h
    · obtain ⟨_, rfl⟩ := Step.next.inj h
      exact Nat.le_refl _

/-- A step reads at least one character. -/
theorem step_length {contexts : Contexts} {state after : State} {c : Char} {text left : Text}
    (h : step contexts state c text = .next after left) : left.length ≤ text.length := by
  unfold step at h
  dsimp only at h
  split at h
  · obtain ⟨_, rfl⟩ := Step.next.inj h
    exact (dropComment_suffix text).length_le
  · exact control_length h
  · obtain ⟨_, rfl⟩ := Step.next.inj h
    exact Nat.le_refl _
  · split at h <;> (obtain ⟨_, rfl⟩ := Step.next.inj h; exact Nat.le_refl _)
  · exact close_length h
  · exact close_length h
  · split at h
    · obtain ⟨_, rfl⟩ := Step.next.inj h
      exact (List.dropWhile_suffix _).length_le
    · obtain ⟨_, rfl⟩ := Step.next.inj h
      exact Nat.le_refl _

/-- Runs the pass to the end of the text: the last state, and the error if a step failed. -/
def run (contexts : Contexts) (state : State) (text : Text) : State × Option BoundaryError :=
  match text with
  | [] => (state, none)
  | c :: text =>
    match _h : step contexts state c text with
    | .next after rest => run contexts after rest
    | .failed error => (state, some error)
termination_by text.length
decreasing_by exact Nat.lt_succ_of_le (step_length _h)

/-- The warning for a restricted environment that never closes. -/
def openEnvironment (state : State) : List Warning :=
  match state.hold with
  | some (.env depth) =>
    match state.envs.reverse[depth]? with
    | some env => [.openEnvironment env]
    | none => []
  | _ => []

end Relocation

/-- The outcome of the pass: the text with its notes moved or an error, and the warnings. -/
structure Relocated where
  result : Except BoundaryError Text
  warnings : List Warning

open Relocation in
/-- Moves the margin notes of a rendered text out of the restricted contexts. -/
def relocate (contexts : Contexts) (text : Text) : Relocated :=
  match run contexts .start text with
  | (state, some error) => ⟨.error error, state.warnings.reverse⟩
  | (state, none) =>
    match state.frames with
    | frame :: outer =>
      ⟨.error (.unclosedGroup (outer.length + 1) frame.offset), state.warnings.reverse⟩
    | [] => ⟨.ok state.flush.output, state.warnings.reverse ++ openEnvironment state⟩

end Marginalia
