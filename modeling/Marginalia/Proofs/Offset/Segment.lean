import Marginalia.Proofs.Canonical
import Marginalia.Proofs.Offset.Argument
import Marginalia.Proofs.Offset.Piece

/-! # Splitting by positions

The segmenter as it goes by positions: one loop over the bytes of a region, which passes markup to a
buffer of pieces and leaves running text waiting in front of it (`splitRound`), behind what the
region before has left open (`resume`).  Wherever the text is cut, a number made smaller or a loop
gone through once more, a fault would end it.

There are no faults.  At the position of what is left a round reads what a step of the segmenter
reads (`splitRound_position`), the buffer holds the parts that have been read (`Reads`), and so the
loop (`loop_position`) and the whole region (`split_position`) come to what the segmenter comes to.
The one thing this asks for is that an argument left open by the region before has an open group
(`Sound`); and that is what the segmenter leaves (`sound_split`), so that a row of regions has no
faults either (`walk_inBounds`).
-/
namespace Marginalia.Offset

open Text Latex Segment Segmenter

variable {text rest whole : Text} {c : Char}

/-! ### The buffer -/

/-- The pieces that have been read, the last first, the position from which running text is waiting,
and whether this text stands inside an open bracketed argument. -/
structure Buffer where
  pieces : List Piece
  waiting : Nat
  shielded : Bool

namespace Buffer

/-- The kind of the running text that is waiting. -/
def textKind (buffer : Buffer) : Kind :=
  if buffer.shielded then .shielded else .plain

/-- Markup between two positions, behind the running text in front of it. -/
def pass (buffer : Buffer) (start stop : Nat) : Buffer :=
  { buffer with
    pieces := push (push buffer.pieces ⟨buffer.textKind, buffer.waiting, start⟩)
      ⟨.markup, start, stop⟩
    waiting := stop }

/-- The segments of a region. -/
def finish (buffer : Buffer) (text : Text) : Checked (List Segment) := do
  let pieces := push buffer.pieces ⟨buffer.textKind, buffer.waiting, text.byteLength⟩
  (← trimmedPieces text pieces).reverse.mapM (cutOut text)

end Buffer

/-- A segmenter in the midst of a region. -/
structure Splitter where
  state : Segmenter
  buffer : Buffer

/-- Where the arguments of a command begin. -/
def argumentsStart (text : Text) (name : String) (i : Nat) : Checked Nat := do
  let stop ← starEnd text i
  if isDefinition name then definitionEnd text stop else return stop

/-- A bracketed argument that does not close begins at a position. -/
def opensBracket (text : Text) (i : Nat) : Checked Bool := do
  if (← sliceFrom text i).head? = some '[' then return (← scanBracket text i) == .unclosed
  else return false

namespace Splitter

variable {splitter : Splitter}

/-- A segmenter before a region. -/
def fresh (state : Segmenter) : Splitter :=
  ⟨state, ⟨[], 0, !state.brackets.isEmpty⟩⟩

/-- Markup between two positions. -/
def pass (splitter : Splitter) (start stop : Nat) : Splitter :=
  { splitter with buffer := splitter.buffer.pass start stop }

/-- Markup up to a position, or up to the end of the text with what is left open. -/
def passOrCarry (splitter : Splitter) (text : Text) (i : Nat) (closed : Option Nat)
    (carried : Mode) : Splitter × Nat :=
  match closed with
  | some stop => (splitter.pass i stop, stop)
  | none =>
    (⟨{ splitter.state with mode := carried }, splitter.buffer.pass i text.byteLength⟩,
      text.byteLength)

/-- Mathematics that is opened at a position by a sequence of so many bytes. -/
def enterMath (splitter : Splitter) (text : Text) (i size : Nat) (delimiter : MathDelimiter) :
    Checked (Splitter × Nat) := do
  return splitter.passOrCarry text i (← mathClose text (i + size) delimiter) (.math delimiter)

/-- Markup up to the end of the arguments that hold no text, or with the one that is left open. -/
def passArguments (splitter : Splitter) (text : Text) (i : Nat) (name : Text) (count stop : Nat) :
    Checked (Splitter × Nat) := do
  match ← arguments text name count stop with
  | .ok stop => return (splitter.pass i stop, stop)
  | .error depth => return splitter.passOrCarry text i none (.raw depth)

/-- A command whose name has been read, with its arguments. -/
def command (splitter : Splitter) (text : Text) (i : Nat) (read : Command) :
    Checked (Splitter × Nat) := do
  let name := String.ofList read.name
  let stop ← optionalArgs text (← argumentsStart text name read.stop)
  let j ← skipWs text stop
  if ← opensBracket text j then
    return (⟨{ splitter.state with brackets := 0 :: splitter.state.brackets },
      { splitter.buffer.pass i (j + 1) with shielded := true }⟩, j + 1)
  else
    splitter.passArguments text i read.name (if isDefinition name then 1 else rawArgumentCount name)
      stop

/-- The position behind an empty group. -/
def emptyGroupEnd (text : Text) (i : Nat) : Checked Nat := do
  if ['{', '}'].isPrefixOf (← sliceFrom text i) then return i + 2 else return i

/-- What a control word at a position begins. -/
def word (splitter : Splitter) (text : Text) (i : Nat) (read : Command) :
    Checked (Splitter × Nat) := do
  if isTextSymbol (String.ofList read.name) then
    return (splitter, ← emptyGroupEnd text read.stop)
  else if read.name = "verb".toList then
    let stop ← verbEnd text i
    return (splitter.pass i stop, stop)
  else splitter.command text i read

/-- What a control symbol at a position begins. -/
def symbol (splitter : Splitter) (text : Text) (i : Nat) (read : Command) :
    Checked (Splitter × Nat) :=
  if read.name = ['\\'] then return (splitter.pass i read.stop, read.stop)
  else if read.name = ['('] then splitter.enterMath text i 2 .paren
  else if read.name = ['['] then splitter.enterMath text i 2 .bracket
  else return (splitter, read.stop)

/-- What a control sequence at a position begins. -/
def control (splitter : Splitter) (text : Text) (i : Nat) : Checked (Splitter × Nat) := do
  match ← verbatimBegin text i with
  | some env =>
    return splitter.passOrCarry text i (← verbatimEnd text (bodyStart env i) env) (.verbatim env)
  | none =>
    let read ← commandAt text i
    if read.isWord then splitter.word text i read else splitter.symbol text i read

/-- What a dollar sign at a position begins. -/
def dollar (splitter : Splitter) (text : Text) (i : Nat) : Checked (Splitter × Nat) :=
  if byteAt? text (i + 1) = some '$' then splitter.enterMath text i 2 .doubleDollar
  else splitter.enterMath text i 1 .dollar

/-- A run of white space at a position, in which two line feeds are markup. -/
def blanks (splitter : Splitter) (text : Text) (i : Nat) : Checked (Splitter × Nat) := do
  let (stop, paragraph) ← blankRun text i
  if paragraph then return (splitter.pass i stop, stop) else return (splitter, stop)

/-- A closing bracket, which may end the innermost bracketed argument. -/
def endBracket (splitter : Splitter) (i : Nat) : Splitter :=
  match splitter.state.brackets with
  | 0 :: outer =>
    ⟨{ splitter.state with brackets := outer },
      { splitter.buffer.pass i (i + 1) with shielded := !outer.isEmpty }⟩
  | _ => splitter.pass i (i + 1)

/-- What was read before the region is what is open. -/
def resume (state : Segmenter) (text : Text) : Checked (Splitter × Nat) := do
  let idle := { fresh state with state.mode := .text }
  match state.mode with
  | .text => return (idle, 0)
  | .math delimiter =>
    return idle.passOrCarry text 0 (← mathClose text 0 delimiter) (.math delimiter)
  | .verbatim env =>
    return idle.passOrCarry text 0 (← verbatimEnd text 0 env) (.verbatim env)
  | .raw depth =>
    match ← closeGroup text 0 depth with
    | .ok stop => return idle.passOrCarry text 0 (some stop) .text
    | .error left => return idle.passOrCarry text 0 none (.raw left)

end Splitter

/-- A round of the loop over a region. -/
def splitRound (text : Text) (splitter : Splitter) (i : Nat) : Checked (Round Splitter Splitter) :=
  match byteAt? text i with
  | none => return .done splitter
  | some '\\' => do
    let (splitter, i) ← splitter.control text i
    return .next splitter i
  | some '{' => return .next ⟨splitter.state.openGroup, splitter.buffer.pass i (i + 1)⟩ (i + 1)
  | some '}' => return .next ⟨splitter.state.endGroup, splitter.buffer.pass i (i + 1)⟩ (i + 1)
  | some ']' => return .next (splitter.endBracket i) (i + 1)
  | some '&' => return .next (splitter.pass i (i + 1)) (i + 1)
  | some '[' => return .next (splitter.pass i (i + 1)) (i + 1)
  | some '%' => do
    let stop ← commentEnd text i
    return .next (splitter.pass i stop) stop
  | some '$' => do
    let (splitter, i) ← splitter.dollar text i
    return .next splitter i
  | some b =>
    if isTexBlank b then do
      let (splitter, i) ← splitter.blanks text i
      return .next splitter i
    else return .next splitter (i + 1)

/-- The segments of the next region's text, and what is open after it. -/
def split (state : Segmenter) (text : Text) : Checked (List Segment × Segmenter) := do
  let (splitter, i) ← Splitter.resume state text
  let splitter ← loop text.byteLength (splitRound text) splitter i
  return (← splitter.buffer.finish text, splitter.state)

/-! ### Rounds -/

namespace Splitter

variable {splitter : Splitter}

/-- Whether the running text stands inside a bracketed argument is what the open ones say. -/
def Synced (splitter : Splitter) : Prop :=
  splitter.buffer.shielded = !splitter.state.brackets.isEmpty

/-- The splitter after a step of the segmenter at the position of `whole`. -/
def after (splitter : Splitter) (text whole : Text) (read : Step) : Splitter :=
  if read.isMarkup then
    ⟨read.state, { splitter.buffer.pass (position text whole) (position text read.rest) with
      shielded := !read.state.brackets.isEmpty }⟩
  else splitter

/-- The splitter after a step, and where the step leaves the text. -/
def moved (splitter : Splitter) (text whole : Text) (read : Step) : Splitter × Nat :=
  (splitter.after text whole read, position text read.rest)

theorem pass_eq_after (hsync : splitter.Synced) (piece rest : Text) :
    splitter.pass (position text whole) (position text rest) =
      splitter.after text whole ⟨true, piece, rest, splitter.state⟩ := by
  rw [after, if_pos rfl, ← hsync]
  rfl

theorem passUpTo_position (hsync : splitter.Synced) (rest : Text) :
    (splitter.pass (position text whole) (position text rest), position text rest) =
      splitter.moved text whole (passUpTo splitter.state whole rest) :=
  Prod.ext (pass_eq_after hsync _ rest) rfl

theorem passOrCarry_position (hsync : splitter.Synced) (rest? : Option Text) (carried : Mode) :
    splitter.passOrCarry text (position text whole) (rest?.map (position text)) carried =
      splitter.moved text whole (Segmenter.passOrCarry splitter.state whole rest? carried) := by
  cases rest? with
  | some rest => exact passUpTo_position hsync rest
  | none =>
    rw [moved, after, Option.map_none, passOrCarry, Segmenter.passOrCarry, if_pos rfl, position_nil,
      ← hsync]
    rfl

theorem enterMath_position (hsync : splitter.Synced) {size : Nat} (hrest : rest <:+ text)
    (hsize : position text whole + size = position text rest) (delimiter : MathDelimiter) :
    splitter.enterMath text (position text whole) size delimiter =
      .ok (splitter.moved text whole
        (Segmenter.passOrCarry splitter.state whole (delimiter.close? rest) (.math delimiter))) := by
  rw [enterMath, hsize, mathClose_position delimiter hrest, ok_bind, passOrCarry_position hsync,
    pure_eq_ok]

theorem dollar_position (hsync : splitter.Synced) (h : '$' :: rest <:+ text) :
    splitter.dollar text (position text ('$' :: rest)) =
      .ok (splitter.moved text ('$' :: rest) (Segmenter.dollar splitter.state rest)) := by
  have hrest : rest <:+ text := (List.suffix_cons _ _).trans h
  rw [dollar, position_succ h rfl]
  by_cases hhead : rest.head? = some '$'
  · rw [if_pos ((byteAt?_position_iff hrest (by decide)).mpr hhead)]
    obtain ⟨body, rfl⟩ := List.head?_eq_some_iff.mp hhead
    refine enterMath_position hsync ((List.suffix_cons _ _).trans hrest) ?_ .doubleDollar
    rw [← position_succ hrest rfl, ← position_succ h rfl]
  · rw [if_neg fun hbyte => hhead ((byteAt?_position_iff hrest (by decide)).mp hbyte)]
    have hdollar : Segmenter.dollar splitter.state rest = Segmenter.passOrCarry splitter.state
        ('$' :: rest) (MathDelimiter.dollar.close? rest) (.math .dollar) := by
      unfold Segmenter.dollar
      split
      · exact absurd rfl hhead
      · rfl
    rw [hdollar]
    exact enterMath_position hsync hrest (position_succ h rfl) .dollar

theorem blanks_position (hsync : splitter.Synced) (h : whole <:+ text) :
    splitter.blanks text (position text whole) =
      .ok (splitter.moved text whole ⟨2 ≤ (whole.takeWhile isTexBlank).count '\n',
        whole.takeWhile isTexBlank, whole.dropWhile isTexBlank, splitter.state⟩) := by
  rw [blanks, blankRun_position h, ok_bind]
  dsimp only
  by_cases hcount : 2 ≤ (whole.takeWhile isTexBlank).count '\n'
  · rw [decide_eq_true hcount, if_pos rfl, moved, ← pass_eq_after hsync]
    rfl
  · rw [decide_eq_false hcount, if_neg Bool.false_ne_true]
    rfl

/-- A bracketed argument that does not close stands at the front of a text. -/
def Opens (text : Text) : Prop :=
  ∃ inner, text = '[' :: inner ∧ Latex.scanBracket inner = .unclosed

theorem opensBracket_position (h : rest <:+ text) :
    ∃ opens, opensBracket text (position text rest) = .ok opens ∧ (opens = true ↔ Opens rest) := by
  rw [opensBracket, sliceFrom_position h, ok_bind]
  by_cases hhead : rest.head? = some '['
  · obtain ⟨inner, rfl⟩ := List.head?_eq_some_iff.mp hhead
    rw [if_pos hhead, scanBracket_position h, ok_bind]
    refine ⟨_, rfl, ?_⟩
    cases hscan : Latex.scanBracket inner <;> simp [Opens, BracketEnd.ofScan, hscan]
  · have hnot : ¬ Opens rest := by
      rintro ⟨inner, rfl, -⟩
      exact hhead rfl
    exact ⟨false, if_neg hhead, by simp [hnot]⟩

/-- The step over a command whose last argument ends so. -/
def throughArguments (state : Segmenter) (whole : Text) : Closing → Step
  | .closed rest => passUpTo state whole rest
  | .unclosed depth => ⟨true, whole, [], { state with mode := .raw depth }⟩

/-- The command comes to what its arguments from `start` on come to. -/
structure Takes (state : Segmenter) (whole : Text) (name : String) (rest start : Text)
    (count : Nat) : Prop where
  opens : ∀ inner, skipBlanks (optionalArguments start) = '[' :: inner →
    Latex.scanBracket inner = .unclosed →
    Segmenter.command state whole name rest =
      passUpTo { state with brackets := 0 :: state.brackets } whole inner
  closed : ¬ Opens (skipBlanks (optionalArguments start)) →
    Segmenter.command state whole name rest =
      throughArguments state whole (commandArguments name count (optionalArguments start))

theorem takes_of_start (state : Segmenter) (whole : Text) {name : String} {start : Text}
    {count : Nat} (hstart : (if isDefinition name then (definitionHead (dropStar rest), 1)
      else (dropStar rest, rawArgumentCount name)) = (start, count)) :
    Takes state whole name rest start count := by
  constructor
  · intro inner hinner hscan
    unfold Segmenter.command
    rw [hstart]
    dsimp only
    rw [hinner]
    exact if_pos hscan
  · intro hbracket
    unfold Segmenter.command
    rw [hstart]
    dsimp only
    split
    · next inner hinner =>
      rw [if_neg fun hscan => hbracket ⟨inner, hinner, hscan⟩]
      rfl
    · rfl

/-- Where the arguments of a command begin, and what they come to. -/
theorem exists_arguments (state : Segmenter) (whole : Text) (name : String) (h : rest <:+ text) :
    ∃ start, start <:+ rest ∧
      argumentsStart text name (position text rest) = .ok (position text start) ∧
      Takes state whole name rest start
        (if isDefinition name then 1 else rawArgumentCount name) := by
  have hstar := dropStar_suffix rest
  rw [argumentsStart, starEnd_position h, ok_bind]
  by_cases hdefinition : isDefinition name = true
  · rw [if_pos hdefinition, if_pos hdefinition, definitionEnd_position (hstar.trans h)]
    exact ⟨_, (definitionHead_suffix _).trans hstar, rfl,
      takes_of_start state whole (if_pos hdefinition)⟩
  · rw [if_neg hdefinition, if_neg hdefinition, pure_eq_ok]
    exact ⟨_, hstar, rfl, takes_of_start state whole (if_neg hdefinition)⟩

theorem passArguments_position (hsync : splitter.Synced) {name : String} {count : Nat}
    (hcount : name = "begin" → count = 1) (h : rest <:+ text) :
    splitter.passArguments text (position text whole) name.toList count (position text rest) =
      .ok (splitter.moved text whole
        (throughArguments splitter.state whole (commandArguments name count rest))) := by
  rw [passArguments, arguments_position hcount h, ok_bind]
  cases commandArguments name count rest with
  | closed stop => exact congrArg Except.ok (passUpTo_position hsync stop)
  | unclosed depth => exact congrArg Except.ok (passOrCarry_position hsync none (.raw depth))

theorem command_position (hsync : splitter.Synced) {name : String} (hrest : rest <:+ text) :
    splitter.command text (position text whole) ⟨name.toList, position text rest, true⟩ =
      .ok (splitter.moved text whole (Segmenter.command splitter.state whole name rest)) := by
  obtain ⟨start, hstart, hstop, htakes⟩ := exists_arguments splitter.state whole name hrest
  have hafter := (optionalArguments_suffix start).trans (hstart.trans hrest)
  have hskip := (skipBlanks_suffix (optionalArguments start)).trans hafter
  have hcount : name = "begin" → (if isDefinition name then 1 else rawArgumentCount name) = 1 := by
    rintro rfl
    decide
  obtain ⟨opens, hopens, hiff⟩ := opensBracket_position hskip
  rw [command, String.ofList_toList]
  dsimp only
  rw [hstop, ok_bind, optionalArgs_position (hstart.trans hrest), ok_bind, skipWs_position hafter,
    ok_bind, hopens, ok_bind]
  by_cases hbracket : Opens (skipBlanks (optionalArguments start))
  · obtain ⟨inner, hinner, hscan⟩ := hbracket
    rw [if_pos (hiff.mpr ⟨inner, hinner, hscan⟩), htakes.opens inner hinner hscan]
    rw [hinner] at hskip ⊢
    rw [position_succ hskip rfl, moved, after, passUpTo, if_pos rfl]
    rfl
  · rw [if_neg fun heq => hbracket (hiff.mp heq), passArguments_position hsync hcount hafter,
      htakes.closed hbracket]

/-- The environment that begins at a position. -/
theorem verbatim_position (hsync : splitter.Synced) {env : Verbatim} {body : Text}
    (h : whole <:+ text) (hbegins : Verbatim.begins? whole = some (env, body)) :
    splitter.control text (position text whole) =
      .ok (splitter.moved text whole
        (Segmenter.passOrCarry splitter.state whole (env.end? body) (.verbatim env))) := by
  obtain rfl := Verbatim.eq_append_of_begins? hbegins
  have hbody : body <:+ text := (List.suffix_append _ _).trans h
  rw [control, verbatimBegin_position h, hbegins, ok_bind]
  dsimp only [Option.map_some]
  rw [bodyStart_position h, verbatimEnd_position hbody, ok_bind, passOrCarry_position hsync,
    pure_eq_ok]

theorem emptyGroupEnd_position (h : rest <:+ text) :
    emptyGroupEnd text (position text rest) = .ok (position text (dropEmptyGroup rest)) := by
  rw [emptyGroupEnd, sliceFrom_position h, ok_bind]
  by_cases hgroup : ['{', '}'].isPrefixOf rest = true
  · obtain ⟨after, rfl⟩ := List.isPrefixOf_iff_prefix.mp hgroup
    rw [if_pos hgroup]
    exact congrArg Except.ok (position_of_append h).symm
  · have hnone : dropEmptyGroup rest = rest := by
      unfold dropEmptyGroup
      split
      · exact absurd (by simp) hgroup
      · rfl
    rw [if_neg hgroup, hnone, pure_eq_ok]

theorem word_position (hsync : splitter.Synced) {name : String}
    (h : '\\' :: (name.toList ++ rest) <:+ text) :
    splitter.word text (position text ('\\' :: (name.toList ++ rest)))
        ⟨name.toList, position text rest, true⟩ =
      .ok (splitter.moved text ('\\' :: (name.toList ++ rest))
        (if isTextSymbol name then
          ⟨false, upTo ('\\' :: (name.toList ++ rest)) (dropEmptyGroup rest), dropEmptyGroup rest,
            splitter.state⟩
        else if name = "verb" then
          passUpTo splitter.state ('\\' :: (name.toList ++ rest)) (dropVerb rest)
        else Segmenter.command splitter.state ('\\' :: (name.toList ++ rest)) name rest)) := by
  have hrest : rest <:+ text :=
    ((List.suffix_append _ _).trans (List.suffix_cons '\\' _)).trans h
  rw [word, String.ofList_toList]
  by_cases hsymbol : isTextSymbol name = true
  · rw [if_pos hsymbol, if_pos hsymbol, emptyGroupEnd_position hrest]
    rfl
  rw [if_neg hsymbol, if_neg hsymbol]
  by_cases hverb : name = "verb"
  · obtain rfl := hverb
    have hend : verbEnd text (position text ('\\' :: ("verb".toList ++ rest))) =
        .ok (position text (dropVerb rest)) := verbEnd_position h
    rw [if_pos rfl, if_pos rfl, hend, ok_bind, passUpTo_position hsync, pure_eq_ok]
  · rw [if_neg fun heq => hverb (String.toList_inj.mp heq), if_neg hverb]
    exact command_position hsync hrest

theorem symbol_position (hsync : splitter.Synced) (h : '\\' :: c :: rest <:+ text) :
    splitter.symbol text (position text ('\\' :: c :: rest)) ⟨[c], position text rest, false⟩ =
      .ok (splitter.moved text ('\\' :: c :: rest)
        (if c = '\\' then passUpTo splitter.state ('\\' :: c :: rest) rest
        else if c = '(' then
          Segmenter.passOrCarry splitter.state ('\\' :: c :: rest)
            (MathDelimiter.paren.close? rest) (.math .paren)
        else if c = '[' then
          Segmenter.passOrCarry splitter.state ('\\' :: c :: rest)
            (MathDelimiter.bracket.close? rest) (.math .bracket)
        else ⟨false, upTo ('\\' :: c :: rest) rest, rest, splitter.state⟩)) := by
  have hname (d : Char) : [c] = [d] ↔ c = d := by simp
  have hbehind : c :: rest <:+ text := (List.suffix_cons _ _).trans h
  have hrest : rest <:+ text := (List.suffix_cons _ _).trans hbehind
  have hsize (hc : c.utf8Size = 1) : position text ('\\' :: c :: rest) + 2 = position text rest := by
    rw [← position_succ hbehind hc, ← position_succ h rfl]
  rw [symbol]
  simp only [hname]
  by_cases hescape : c = '\\'
  · rw [if_pos hescape, if_pos hescape, passUpTo_position hsync, pure_eq_ok]
  rw [if_neg hescape, if_neg hescape]
  by_cases hparen : c = '('
  · rw [if_pos hparen, if_pos hparen]
    exact enterMath_position hsync hrest (hsize (hparen ▸ rfl)) .paren
  rw [if_neg hparen, if_neg hparen]
  by_cases hbracket : c = '['
  · rw [if_pos hbracket, if_pos hbracket]
    exact enterMath_position hsync hrest (hsize (hbracket ▸ rfl)) .bracket
  rw [if_neg hbracket, if_neg hbracket]
  rfl

theorem control_position (hsync : splitter.Synced) (h : '\\' :: rest <:+ text) :
    splitter.control text (position text ('\\' :: rest)) =
      .ok (splitter.moved text ('\\' :: rest) (Segmenter.control splitter.state rest)) := by
  rw [Segmenter.control]
  cases hbegins : Verbatim.begins? ('\\' :: rest) with
  | some found => exact verbatim_position hsync h hbegins
  | none =>
    rw [control, verbatimBegin_position h, hbegins, ok_bind]
    dsimp only [Option.map_none]
    rw [commandAt_position h, ok_bind]
    rcases readControl_cases rest with ⟨name, after, hread, rfl, -⟩ | ⟨c, after, hread, rfl, -⟩ |
      ⟨hread, -⟩ <;> rw [hread]
    · exact word_position hsync h
    · exact symbol_position hsync h
    · rfl

theorem endBracket_position (hsync : splitter.Synced) (h : ']' :: rest <:+ text) :
    splitter.endBracket (position text (']' :: rest)) =
      splitter.after text (']' :: rest) ⟨true, [']'], rest, splitter.state.endBracket⟩ := by
  obtain ⟨⟨mode, brackets⟩, buffer⟩ := splitter
  rw [endBracket, position_succ h rfl]
  cases brackets with
  | nil => exact pass_eq_after hsync _ _
  | cons depth outer =>
    cases depth with
    | zero => rw [after, if_pos rfl]; rfl
    | succ depth => exact pass_eq_after hsync _ _

/-- Markup of one byte that changes only what is open. -/
theorem pass_position (h : c :: rest <:+ text) (hc : c.utf8Size = 1) {state : Segmenter}
    (hopen : splitter.buffer.shielded = !state.brackets.isEmpty) :
    (⟨state, splitter.buffer.pass (position text (c :: rest)) (position text (c :: rest) + 1)⟩ :
      Splitter) = splitter.after text (c :: rest) ⟨true, [c], rest, state⟩ := by
  rw [after, if_pos rfl, ← hopen, position_succ h hc]
  rfl

end Splitter

theorem not_mem_special_of_le {b : Char} (h : 128 ≤ b.toNat) : b ∉ special := by
  intro hmem
  have hsmall : ∀ d ∈ special, d.toNat < 128 := by decide
  exact absurd (hsmall b hmem) (Nat.not_lt.mpr h)

theorem splitRound_of_not_special (splitter : Splitter) {i : Nat} {b : Char}
    (hb : byteAt? text i = some b) (hspecial : b ∉ special) :
    splitRound text splitter i =
      if isTexBlank b then do
        let (splitter, i) ← splitter.blanks text i
        return .next splitter i
      else .ok (.next splitter (i + 1)) := by
  rw [splitRound, hb]
  split
  case h_10 =>
    obtain rfl := Option.some.inj ‹_›
    rfl
  case h_1 => cases ‹some b = none›
  all_goals
    obtain rfl := Option.some.inj ‹_›
    exact absurd (by decide) hspecial

theorem isEmpty_openGroup (state : Segmenter) :
    state.openGroup.brackets.isEmpty = state.brackets.isEmpty := by
  obtain ⟨mode, brackets⟩ := state
  cases brackets <;> rfl

theorem isEmpty_endGroup (state : Segmenter) :
    state.endGroup.brackets.isEmpty = state.brackets.isEmpty := by
  obtain ⟨mode, brackets⟩ := state
  cases brackets <;> rfl

/-- A round at a character that begins or ends markup. -/
theorem splitRound_special {splitter : Splitter} (hsync : splitter.Synced) (h : c :: rest <:+ text)
    (hc : c ∈ special) :
    splitRound text splitter (position text (c :: rest)) =
      .ok (.next (splitter.after text (c :: rest) (step splitter.state c rest))
        (position text (step splitter.state c rest).rest)) := by
  have hopen : splitter.buffer.shielded = !splitter.state.openGroup.brackets.isEmpty := by
    rw [isEmpty_openGroup]
    exact hsync
  have hend : splitter.buffer.shielded = !splitter.state.endGroup.brackets.isEmpty := by
    rw [isEmpty_endGroup]
    exact hsync
  simp only [special, List.mem_cons, List.not_mem_nil, or_false] at hc
  rcases hc with rfl | rfl | rfl | rfl | rfl | rfl | rfl | rfl <;>
    rw [splitRound, byteAt?_position h (by decide)]
  · change (splitter.control text _ >>= _) = _
    rw [Splitter.control_position hsync h]
    rfl
  · change Except.ok (Round.next _ _) = _
    rw [Splitter.pass_position h rfl hopen, position_succ h rfl]
    rfl
  · change Except.ok (Round.next _ _) = _
    rw [Splitter.pass_position h rfl hend, position_succ h rfl]
    rfl
  · change Except.ok (Round.next (splitter.pass _ _) _) = _
    rw [position_succ h rfl, Splitter.pass_eq_after hsync ['[']]
    rfl
  · change Except.ok (Round.next (splitter.endBracket _) _) = _
    rw [Splitter.endBracket_position hsync h, position_succ h rfl]
    rfl
  · change Except.ok (Round.next (splitter.pass _ _) _) = _
    rw [position_succ h rfl, Splitter.pass_eq_after hsync ['&']]
    rfl
  · change (commentEnd text _ >>= _) = _
    rw [commentEnd_position h, ok_bind,
      Splitter.pass_eq_after hsync (upTo ('%' :: rest) (dropComment rest))]
    rfl
  · change (splitter.dollar text _ >>= _) = _
    rw [Splitter.dollar_position hsync h]
    rfl

/-- **A round reads what a step reads**, and a character of running text takes as many rounds as it
has bytes. -/
theorem loop_step {splitter : Splitter} (hsync : splitter.Synced) (h : c :: rest <:+ text) :
    loop text.byteLength (splitRound text) splitter (position text (c :: rest)) =
      loop text.byteLength (splitRound text)
        (splitter.after text (c :: rest) (step splitter.state c rest))
        (position text (step splitter.state c rest).rest) := by
  have hreads := reads_step splitter.state c rest
  have hsuffix : (step splitter.state c rest).rest <:+ c :: rest := ⟨_, hreads.append⟩
  have hshort := Nat.lt_succ_of_le hreads.length_le
  by_cases hc : c ∈ special
  · exact loop_next_position h hsuffix hshort (splitRound_special hsync h hc)
  · rw [step_of_not_special hc] at hsuffix hshort ⊢
    by_cases hblank : isTexBlank c = true
    · have hround := splitRound_of_not_special splitter
        (byteAt?_position h (lt_of_isTexBlank hblank)) hc
      rw [if_pos hblank, Splitter.blanks_position hsync h, List.takeWhile_cons_of_pos hblank,
        List.dropWhile_cons_of_pos hblank] at hround
      rw [if_pos hblank] at hsuffix hshort ⊢
      exact loop_next_position h hsuffix hshort hround
    · rw [if_neg hblank]
      refine loop_skip h fun i b hb hbyte => ?_
      have hb' : b ∉ special ∧ ¬ isTexBlank b = true := by
        rcases hbyte with rfl | hlarge
        · exact ⟨hc, hblank⟩
        · exact ⟨not_mem_special_of_le hlarge,
            fun hb => absurd (lt_of_isTexBlank hb) (Nat.not_lt.mpr hlarge)⟩
      rw [splitRound_of_not_special splitter hb hb'.1, if_neg hb'.2]

/-! ### A region -/

/-- A step that reads running text leaves open what is open. -/
def Keeps (state : Segmenter) (read : Step) : Prop :=
  read.isMarkup = true ∨ read.state = state

theorem keeps_passOrCarry (state : Segmenter) (text : Text) (rest? : Option Text) (carried : Mode) :
    Keeps state (Segmenter.passOrCarry state text rest? carried) :=
  .inl (isMarkup_passOrCarry state text rest? carried)

theorem keeps_control (state : Segmenter) (text : Text) :
    Keeps state (Segmenter.control state text) := by
  cases hmarkup : (Segmenter.control state text).isMarkup with
  | true => exact .inl hmarkup
  | false =>
    right
    rcases (control_of_running hmarkup).2 with ⟨_, _, -, -, hcontrol⟩ | ⟨_, _, -, -, -, -, hcontrol⟩ |
      ⟨_, -, hcontrol⟩ <;> rw [hcontrol]

theorem keeps_step (state : Segmenter) (c : Char) (text : Text) :
    Keeps state (step state c text) := by
  by_cases hc : c ∈ special
  · simp only [special, List.mem_cons, List.not_mem_nil, or_false] at hc
    rcases hc with rfl | rfl | rfl | rfl | rfl | rfl | rfl | rfl
    · exact keeps_control state text
    case inr.inr.inr.inr.inr.inr.inr =>
      exact .inl (isMarkup_dollar state text)
    all_goals exact .inl rfl
  · rw [step_of_not_special hc]
    split <;> exact .inr rfl

/-- The buffer holds the parts in front of the rest of the text: pieces of the text, and running
text that is waiting behind them. -/
structure Reads (text : Text) (splitter : Splitter) (parts : List Segment) (rest : Text) :
    Prop where
  synced : splitter.Synced
  waiting : ∃ segments wait, Tiles text splitter.buffer.pieces segments (wait ++ rest) ∧
    splitter.buffer.waiting = position text (wait ++ rest) ∧
    parts.foldl join [] = join segments ⟨splitter.buffer.textKind, wait⟩

theorem Reads.suffix {splitter : Splitter} {parts : List Segment}
    (h : Reads text splitter parts rest) : rest <:+ text := by
  obtain ⟨segments, wait, htiles, -⟩ := h.waiting
  exact (List.suffix_append _ _).trans htiles.suffix

theorem Splitter.Synced.textKind {splitter : Splitter} (h : splitter.Synced) :
    splitter.buffer.textKind = splitter.state.textKind := by
  rw [Buffer.textKind, Segmenter.textKind, h]
  cases splitter.state.brackets <;> rfl

/-- What holds before a step holds after it. -/
theorem Reads.after {splitter : Splitter} {parts : List Segment} {read : Step}
    (h : Reads text splitter parts whole) (happend : read.piece ++ read.rest = whole)
    (hkeeps : Keeps splitter.state read) :
    Reads text (splitter.after text whole read) (parts ++ [read.segment splitter.state]) read.rest ∧
      (splitter.after text whole read).state = read.state := by
  obtain ⟨segments, wait, htiles, hwaiting, hparts⟩ := h.waiting
  have hsync := h.synced
  obtain ⟨isMarkup, piece, rest, state⟩ := read
  obtain rfl : piece ++ rest = whole := happend
  cases isMarkup with
  | true =>
    have hpushed := (htiles.push ⟨splitter.buffer.textKind, wait⟩).push ⟨.markup, piece⟩
    rw [pieceOf, ← hwaiting] at hpushed
    rw [Splitter.after, if_pos rfl]
    refine ⟨⟨rfl, _, [], hpushed, rfl, ?_⟩, rfl⟩
    rw [List.foldl_append, hparts]
    rfl
  | false =>
    obtain rfl : state = splitter.state := hkeeps.resolve_left Bool.false_ne_true
    refine ⟨⟨hsync, segments, wait ++ piece, ?_, ?_, ?_⟩, rfl⟩
    · rwa [List.append_assoc]
    · rw [List.append_assoc]
      exact hwaiting
    · rw [List.foldl_append, hparts]
      change join (join segments ⟨splitter.buffer.textKind, wait⟩) ⟨splitter.state.textKind, piece⟩ =
        join segments ⟨splitter.buffer.textKind, wait ++ piece⟩
      rw [← hsync.textKind, join_join]

/-- The loop over the rest of a region reads the parts that the segmenter reads. -/
theorem loop_position {splitter : Splitter} {parts : List Segment}
    (h : Reads text splitter parts rest) :
    ∃ last, loop text.byteLength (splitRound text) splitter (position text rest) = .ok last ∧
      Reads text last (parts ++ (Segmenter.parts splitter.state rest).1) [] ∧
      last.state = (Segmenter.parts splitter.state rest).2 := by
  generalize hstate : splitter.state = state
  fun_induction Segmenter.parts state rest generalizing splitter parts with
  | case1 state =>
    refine ⟨splitter, loop_done ?_, by rwa [List.append_nil], hstate⟩
    rw [splitRound, byteAt?_position_nil]
    rfl
  | case2 state c rest read =>
    rename_i after ih
    obtain rfl := hstate
    obtain ⟨hreads, hread⟩ := h.after (reads_step splitter.state c rest).append
      (keeps_step splitter.state c rest)
    obtain ⟨last, hloop, hlast, hopen⟩ := ih hreads hread
    refine ⟨last, (loop_step h.synced h.suffix).trans hloop, ?_, hopen⟩
    rwa [List.append_assoc] at hlast

theorem finish_position {splitter : Splitter} {parts : List Segment}
    (h : Reads text splitter parts []) : splitter.buffer.finish text = .ok (ofParts parts) := by
  obtain ⟨segments, wait, htiles, hwaiting, hparts⟩ := h.waiting
  have hpushed := htiles.push ⟨splitter.buffer.textKind, wait⟩
  rw [← hparts] at hpushed
  obtain ⟨merged, hmerged, htrimmed⟩ := tiles_trimmedPieces hpushed
  rw [reverse_foldl_join] at htrimmed
  have hslices := slices_of_tiles htrimmed
  rw [reverse_foldl_join] at hslices
  rw [Buffer.finish, hwaiting, ← position_nil text]
  change (trimmedPieces text (push splitter.buffer.pieces
    (pieceOf text ⟨splitter.buffer.textKind, wait⟩ [])) >>= _) = _
  rw [hmerged]
  exact hslices

/-! ### Rows of regions -/

/-- An argument that is left open has an open group. -/
def Sound (state : Segmenter) : Prop :=
  ∀ depth, state.mode = .raw depth → 1 ≤ depth

/-- Before a region nothing has been read. -/
theorem reads_fresh (state : Segmenter) (text : Text) : Reads text (.fresh state) [] text :=
  ⟨rfl, [], [], .nil, (position_self text).symm, rfl⟩

/-- What is open from the region before is read up to its end. -/
theorem passOrCarry_fresh {state idle : Segmenter} {rest? : Option Text} {carried : Mode}
    (hresume : Segmenter.resume state text = Segmenter.passOrCarry idle text rest? carried) :
    ∃ splitter, (Splitter.fresh idle).passOrCarry text 0 (rest?.map (position text)) carried =
        (splitter, position text (Segmenter.resume state text).rest) ∧
      Reads text splitter [(Segmenter.resume state text).segment state]
        (Segmenter.resume state text).rest ∧
      splitter.state = (Segmenter.resume state text).state := by
  have happend := resume_append state text
  rw [hresume] at happend ⊢
  have hfresh := reads_fresh idle text
  obtain ⟨hreads, hstate⟩ := hfresh.after happend (keeps_passOrCarry idle text rest? carried)
  have hmoved : (Splitter.fresh idle).passOrCarry text (position text text)
      (rest?.map (position text)) carried =
      (Splitter.fresh idle).moved text text (Segmenter.passOrCarry idle text rest? carried) :=
    Splitter.passOrCarry_position hfresh.synced rest? carried
  rw [position_self] at hmoved
  refine ⟨_, hmoved, ?_, hstate⟩
  cases rest? <;> exact hreads

theorem sound_start : Sound .start := by
  intro depth heq
  cases heq

/-- What is left of an argument without text is read, or the groups that are open are carried. -/
theorem resume_raw_position {depth : Nat} (hdepth : 1 ≤ depth) (brackets : List Nat) (text : Text) :
    ∃ splitter, Splitter.resume ⟨.raw depth, brackets⟩ text = .ok (splitter,
        position text (Segmenter.resume ⟨.raw depth, brackets⟩ text).rest) ∧
      Reads text splitter
        [(Segmenter.resume ⟨.raw depth, brackets⟩ text).segment ⟨.raw depth, brackets⟩]
        (Segmenter.resume ⟨.raw depth, brackets⟩ text).rest ∧
      splitter.state = (Segmenter.resume ⟨.raw depth, brackets⟩ text).state := by
  have hclose := closeGroup_position hdepth (List.suffix_refl text)
  rw [position_self] at hclose
  have hsplitter : Splitter.resume ⟨.raw depth, brackets⟩ text =
      match (Latex.closeGroup depth text).inBytes text with
      | .ok stop => .ok ((Splitter.fresh ⟨.text, brackets⟩).passOrCarry text 0 (some stop) .text)
      | .error left =>
        .ok ((Splitter.fresh ⟨.text, brackets⟩).passOrCarry text 0 none (.raw left)) := by
    change (closeGroup text 0 depth >>= _) = _
    rw [hclose, ok_bind]
    cases Latex.closeGroup depth text <;> rfl
  cases hgroup : Latex.closeGroup depth text with
  | closed rest =>
    have hresume : Segmenter.resume ⟨.raw depth, brackets⟩ text =
        Segmenter.passOrCarry ⟨.text, brackets⟩ text (some rest) .text := by
      simp only [Segmenter.resume, hgroup]
      rfl
    obtain ⟨splitter, hpass, hreads⟩ := passOrCarry_fresh hresume
    rw [hsplitter, hgroup]
    exact ⟨splitter, congrArg Except.ok hpass, hreads⟩
  | unclosed left =>
    have hresume : Segmenter.resume ⟨.raw depth, brackets⟩ text =
        Segmenter.passOrCarry ⟨.text, brackets⟩ text none (.raw left) := by
      simp only [Segmenter.resume, hgroup]
      rfl
    obtain ⟨splitter, hpass, hreads⟩ := passOrCarry_fresh hresume
    rw [hsplitter, hgroup]
    exact ⟨splitter, congrArg Except.ok hpass, hreads⟩

theorem resume_position {state : Segmenter} (hsound : Sound state) (text : Text) :
    ∃ splitter, Splitter.resume state text = .ok (splitter,
        position text (Segmenter.resume state text).rest) ∧
      Reads text splitter [(Segmenter.resume state text).segment state]
        (Segmenter.resume state text).rest ∧
      splitter.state = (Segmenter.resume state text).state := by
  have hself : text <:+ text := List.suffix_refl text
  obtain ⟨mode, brackets⟩ := state
  cases mode with
  | text =>
    refine ⟨.fresh ⟨.text, brackets⟩, ?_, ?_, rfl⟩
    · change Except.ok (Splitter.fresh ⟨.text, brackets⟩, 0) = .ok (_, position text text)
      rw [position_self]
    · exact ⟨rfl, [], [], .nil, (position_self text).symm, rfl⟩
  | math delimiter =>
    have hresume : Segmenter.resume ⟨.math delimiter, brackets⟩ text =
        Segmenter.passOrCarry ⟨.text, brackets⟩ text (delimiter.close? text) (.math delimiter) := rfl
    obtain ⟨splitter, hpass, hreads⟩ := passOrCarry_fresh hresume
    have hclose := mathClose_position delimiter hself
    rw [position_self] at hclose
    refine ⟨splitter, ?_, hreads⟩
    change (mathClose text 0 delimiter >>= _) = _
    rw [hclose, ok_bind]
    exact congrArg Except.ok hpass
  | verbatim env =>
    have hresume : Segmenter.resume ⟨.verbatim env, brackets⟩ text =
        Segmenter.passOrCarry ⟨.text, brackets⟩ text (env.end? text) (.verbatim env) := rfl
    obtain ⟨splitter, hpass, hreads⟩ := passOrCarry_fresh hresume
    have hend := verbatimEnd_position hself env
    rw [position_self] at hend
    refine ⟨splitter, ?_, hreads⟩
    change (verbatimEnd text 0 env >>= _) = _
    rw [hend, ok_bind]
    exact congrArg Except.ok hpass
  | raw depth => exact resume_raw_position (hsound depth rfl) brackets text

/-- **A region has no faults**, and comes to its segments. -/
theorem split_position {state : Segmenter} (hsound : Sound state) (text : Text) :
    split state text = .ok (Segmenter.split state text) := by
  obtain ⟨splitter, hresume, hreads, hstate⟩ := resume_position hsound text
  obtain ⟨last, hloop, hlast, hopen⟩ := loop_position hreads
  rw [split, hresume, ok_bind]
  dsimp only
  rw [hloop, ok_bind, finish_position hlast, ok_bind, hopen, hstate]
  rfl

theorem Sound.of_mode {state state' : Segmenter} (hsound : Sound state)
    (hmode : state'.mode = state.mode) : Sound state' :=
  fun depth heq => hsound depth (hmode.symm.trans heq)

theorem sound_passOrCarry {state : Segmenter} (hsound : Sound state) (text : Text)
    (rest? : Option Text) {carried : Mode} (hcarried : ∀ depth, carried = .raw depth → 1 ≤ depth) :
    Sound (Segmenter.passOrCarry state text rest? carried).state := by
  cases rest? with
  | some rest => exact hsound
  | none => exact hcarried

theorem sound_command {state : Segmenter} (hsound : Sound state) (whole : Text) (name : String)
    (text : Text) : Sound (Segmenter.command state whole name text).state := by
  obtain ⟨start, -, -, htakes⟩ :=
    Splitter.exists_arguments state whole name (List.suffix_refl text)
  by_cases hbracket : Splitter.Opens (skipBlanks (optionalArguments start))
  · obtain ⟨inner, hinner, hscan⟩ := hbracket
    rw [htakes.opens inner hinner hscan]
    exact hsound.of_mode rfl
  · rw [htakes.closed hbracket]
    cases hend : commandArguments name _ (optionalArguments start) with
    | closed rest => exact hsound
    | unclosed depth =>
      intro depth' heq
      obtain rfl := Mode.raw.inj heq
      exact one_le_of_commandArguments hend

theorem sound_control {state : Segmenter} (hsound : Sound state) (text : Text) :
    Sound (Segmenter.control state text).state := by
  rw [Segmenter.control]
  cases Verbatim.begins? ('\\' :: text) with
  | some found => exact sound_passOrCarry hsound _ _ fun _ heq => nomatch heq
  | none =>
    rcases readControl_cases text with ⟨name, rest, hread, -⟩ | ⟨c, rest, hread, -⟩ | ⟨hread, -⟩ <;>
      rw [hread]
    · dsimp only
      split
      · exact hsound
      · split
        · exact hsound
        · exact sound_command hsound _ _ _
    · dsimp only
      split
      · exact hsound
      · split
        · exact sound_passOrCarry hsound _ _ fun _ heq => nomatch heq
        · split
          · exact sound_passOrCarry hsound _ _ fun _ heq => nomatch heq
          · exact hsound
    · exact hsound

theorem sound_step {state : Segmenter} (hsound : Sound state) (c : Char) (text : Text) :
    Sound (step state c text).state := by
  by_cases hc : c ∈ special
  · simp only [special, List.mem_cons, List.not_mem_nil, or_false] at hc
    obtain ⟨mode, brackets⟩ := state
    rcases hc with rfl | rfl | rfl | rfl | rfl | rfl | rfl | rfl
    · exact sound_control hsound text
    · cases brackets <;> exact hsound.of_mode rfl
    · cases brackets <;> exact hsound.of_mode rfl
    · exact hsound
    · rcases brackets with - | ⟨- | depth, outer⟩ <;> exact hsound.of_mode rfl
    · exact hsound
    · exact hsound
    · change Sound (Segmenter.dollar ⟨mode, brackets⟩ text).state
      unfold Segmenter.dollar
      split <;> exact sound_passOrCarry hsound _ _ fun _ heq => nomatch heq
  · rw [step_of_not_special hc]
    split <;> exact hsound

theorem sound_parts {state : Segmenter} (hsound : Sound state) (text : Text) :
    Sound (Segmenter.parts state text).2 := by
  fun_induction Segmenter.parts state text with
  | case1 => exact hsound
  | case2 state c text read after ih => exact ih (sound_step hsound c text)

theorem sound_resume {state : Segmenter} (hsound : Sound state) (text : Text) :
    Sound (Segmenter.resume state text).state := by
  have hidle : Sound { state with mode := .text } := fun _ heq => nomatch heq
  unfold Segmenter.resume
  dsimp only
  split
  · exact hidle
  · exact sound_passOrCarry hidle _ _ fun _ heq => nomatch heq
  · exact sound_passOrCarry hidle _ _ fun _ heq => nomatch heq
  · next depth hmode =>
    split
    · exact hidle
    · next left hclose =>
      intro depth' heq
      obtain rfl := Mode.raw.inj heq
      exact one_le_of_unclosed (hsound depth hmode) hclose

/-- **What a region leaves open** the next region can go on with. -/
theorem sound_split {state : Segmenter} (hsound : Sound state) (text : Text) :
    Sound (Segmenter.split state text).2 :=
  sound_parts (sound_resume hsound text) _

/-- The segments of texts that are read one after the other, each with what is open before it. -/
def walk (state : Segmenter) : List Text → Checked (List (Segmenter × List Segment))
  | [] => .ok []
  | text :: texts => do
    let (segments, after) ← split state text
    return (state, segments) :: (← walk after texts)

theorem walk_position {state : Segmenter} (hsound : Sound state) (texts : List Text) :
    walk state texts = .ok (Segmenter.walk state texts) ∧
      ∀ read ∈ Segmenter.walk state texts, Sound read.1 := by
  induction texts generalizing state with
  | nil => exact ⟨rfl, fun read hread => absurd hread List.not_mem_nil⟩
  | cons text texts ih =>
    obtain ⟨hwalk, hreads⟩ := ih (sound_split hsound text)
    refine ⟨?_, List.forall_mem_cons.mpr ⟨hsound, hreads⟩⟩
    rw [walk, split_position hsound, ok_bind]
    dsimp only
    rw [hwalk]
    rfl

/-- **Splitting never cuts out of place or goes below zero.**  Whatever texts one segmenter is given
from the start, the loops over their bytes come to the segments without a fault: every part is cut
between positions in the text where a character begins or the text ends, no number is taken from a
smaller one, and every round of every loop comes closer to the end of the text; and wherever an
argument without text is open before a text, some group is open in it. -/
theorem walk_inBounds (texts : List Text) :
    walk .start texts = .ok (Segmenter.walk .start texts) ∧
      ∀ read ∈ Segmenter.walk .start texts, ∀ depth, read.1.mode = .raw depth → 1 ≤ depth :=
  walk_position sound_start texts

/-- A citation that two regions share, the first of which ends in two of its groups. -/
def sharedCitation : List Text :=
  ["a\\cite\x7bé\x7b".toList, "\x7d\x7d[é".toList]

/-- The second region is read inside the two groups. -/
theorem walk_inBounds_sharedCitation :
    ∃ reads, walk .start sharedCitation = .ok reads ∧
      ∃ read ∈ reads, read.1.mode = .raw 2 ∧ 1 ≤ 2 := by
  obtain ⟨hwalk, hdepth⟩ := walk_inBounds sharedCitation
  have hstate : (⟨.raw 2, []⟩ : Segmenter) ∈
      (Segmenter.walk .start sharedCitation).map Prod.fst := by decide +kernel
  obtain ⟨read, hread, heq⟩ := List.mem_map.mp hstate
  have hmode : read.1.mode = .raw 2 := congrArg Segmenter.mode heq
  exact ⟨_, hwalk, read, hread, hmode, hdepth read hread 2 hmode⟩

end Marginalia.Offset
