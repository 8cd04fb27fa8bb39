import Marginalia.Proofs.Offset.Cursor
import Marginalia.Proofs.Relocation.Coherence

/-! # Relocation by positions

The relocation pass as it goes by positions: one loop over the bytes of a text, which keeps a cursor
up to which the text has been copied (`Pass.round`).

The loop goes along with the pass over characters (`Stands`).  At the position of what that pass has
left, the states are the same, but for the text behind the cursor, which is still to be copied, and
a round does what a step does (`Copied.round`).  Inside of a character of several bytes nothing is
done. So the loop has no faults and comes to what the pass comes to, and each of its states is
coherent (`relocation_coherent`).
-/
namespace Marginalia.Offset

open Text Latex Relocation

variable {contexts : Contexts} {state : State} {text rest : Text} {c : Char}

/-! ### Arguments of control words -/

/-- The positions of a group behind white space, and of what follows the group. -/
def groupAfter (text : Text) (i : Nat) : Checked (Option (Nat × Nat)) := do
  let start ← skipWs text i
  if byteAt? text start = some '{' then
    match ← closeGroup text (start + 1) 1 with
    | .ok stop => return some (start, stop)
    | .error _ => return none
  else return none

/-- The position behind the arguments of a note that begins at a position. -/
def noteEnd (text : Text) (i : Nat) : Checked (Option Nat) := do
  match ← groupAfter text (i + byteLength "\\annot".toList) with
  | some (_, stop) => return (← groupAfter text stop).map Prod.snd
  | none => return none

/-- The name of an environment behind a beginning or an end, and the position of what follows it. -/
def environmentName (text : Text) (i : Nat) : Checked (Option (String × Nat)) := do
  match ← groupAfter text i with
  | some (start, stop) =>
    return some (String.ofList (trim (← slice text (start + 1) (← sub stop 1))), stop)
  | none => return none

theorem groupAfter_position (h : rest <:+ text) :
    groupAfter text (position text rest) = .ok ((readGroup? (skipBlanks rest)).map fun read =>
      (position text (skipBlanks rest), position text read.2)) := by
  have hskip : skipBlanks rest <:+ text := (skipBlanks_suffix rest).trans h
  rw [groupAfter, skipWs_position h, ok_bind]
  by_cases hhead : (skipBlanks rest).head? = some '{'
  · rw [if_pos ((byteAt?_position_iff hskip (by decide)).mpr hhead)]
    obtain ⟨inner, hinner⟩ := List.head?_eq_some_iff.mp hhead
    rw [hinner] at hskip ⊢
    rw [position_succ hskip rfl, closeGroup_position (Nat.le_refl 1)
      ((List.suffix_cons _ _).trans hskip), ok_bind, readGroup?]
    cases Latex.closeGroup 1 inner <;> rfl
  · have hnone : readGroup? (skipBlanks rest) = none := by
      unfold readGroup?
      split
      · next hinner => exact absurd (hinner ▸ rfl) hhead
      · rfl
    rw [if_neg fun hbyte => hhead ((byteAt?_position_iff hskip (by decide)).mp hbyte), hnone]
    rfl

theorem noteEnd_position (h : "\\annot".toList ++ rest <:+ text) :
    noteEnd text (position text ("\\annot".toList ++ rest)) =
      .ok ((noteEnd? rest).map (position text)) := by
  have hrest : rest <:+ text := (List.suffix_append _ _).trans h
  rw [noteEnd, ← position_of_append h, groupAfter_position hrest, ok_bind, noteEnd?]
  cases hkey : readGroup? (skipBlanks rest) with
  | none => rfl
  | some read =>
    obtain ⟨key, after⟩ := read
    have hafter : after <:+ text := by
      refine List.IsSuffix.trans ?_ ((skipBlanks_suffix rest).trans hrest)
      rw [eq_of_readGroup? hkey]
      exact ((List.suffix_cons _ _).trans (List.suffix_append key _)).trans (List.suffix_cons _ _)
    dsimp only [Option.map_some]
    rw [groupAfter_position hafter, ok_bind]
    cases readGroup? (skipBlanks after) <;> rfl

theorem environmentName_position (h : rest <:+ text) :
    environmentName text (position text rest) =
      .ok ((environmentName? rest).map fun read => (read.1, position text read.2)) := by
  have hskip : skipBlanks rest <:+ text := (skipBlanks_suffix rest).trans h
  rw [environmentName, groupAfter_position h, ok_bind, environmentName?]
  cases hname : readGroup? (skipBlanks rest) with
  | none => rfl
  | some read =>
    obtain ⟨name, after⟩ := read
    have hgroup : skipBlanks rest = '{' :: (name ++ '}' :: after) := eq_of_readGroup? hname
    rw [hgroup] at hskip ⊢
    have hbody : name ++ '}' :: after <:+ text := (List.suffix_cons _ _).trans hskip
    have hclose : '}' :: after <:+ text := (List.suffix_append _ _).trans hbody
    dsimp only [Option.map_some]
    rw [position_succ hskip rfl, ← position_succ hclose rfl, sub_add_right, ok_bind,
      slice_position hbody]
    rfl

/-! ### The loop over the bytes -/

/-- How a round of the pass ends. -/
abbrev Outcome : Type :=
  Checked (Round Pass Relocated)

namespace Pass

/-- Goes on from where the pass is. -/
def go (pass : Pass) : Round Pass Relocated :=
  .next pass pass.state.offset

/-- Fails with an error. -/
def fail (pass : Pass) (error : BoundaryError) : Round Pass Relocated :=
  .done ⟨.error error, pass.state.warnings.reverse⟩

/-- What a closing brace or bracket does. -/
def close (pass : Pass) (text : Text) (delimiter : Delimiter) : Outcome := do
  match pass.state.frames with
  | frame :: outer =>
    if frame.delimiter = delimiter then
      return (← (pass.move (pass.state.offset + 1)).closeFrame text frame outer).go
    else if delimiter = .brace then return pass.fail (.unbalancedClose pass.state.offset)
    else return ((pass.move (pass.state.offset + 1)).awaiting none).go
  | [] =>
    if delimiter = .brace then return pass.fail (.unbalancedClose pass.state.offset)
    else return ((pass.move (pass.state.offset + 1)).awaiting none).go

/-- What a note up to a position does: only where something is held or a further argument is waited
for it is taken out. -/
def note (contexts : Contexts) (pass : Pass) (text : Text) (stop : Nat) : Outcome := do
  if pass.state.hold.isSome || pass.state.rearm then
    return ((← pass.lift text stop).awaiting none).go
  else return (({ pass with state := pass.state.warn contexts }.move stop).awaiting none).go

/-- What the beginning or the end of an environment up to a position does. -/
def environment (contexts : Contexts) (pass : Pass) (text : Text) (begins : Bool) (env : String)
    (stop : Nat) : Outcome := do
  let pass := pass.move stop
  if begins then return go { pass with state := pass.state.beginEnv contexts env }
  else return (← pass.endEnv text env).go

/-- What a control word begins. -/
def word (contexts : Contexts) (pass : Pass) (text : Text) (read : Command) : Outcome := do
  let name := String.ofList read.name
  if name = "verb" then
    return ((pass.move (← verbEnd text pass.state.offset)).awaiting none).go
  else if name = "annot" then
    match ← noteEnd text pass.state.offset with
    | none => return pass.fail (.malformedNote pass.state.offset)
    | some stop => pass.note contexts text stop
  else if name = "begin" ∨ name = "end" then
    match ← environmentName text read.stop with
    | none => return ((pass.move read.stop).awaiting none).go
    | some (env, stop) => pass.environment contexts text (name = "begin") env stop
  else
    let stop := if byteAt? text read.stop = some '*' then read.stop + 1 else read.stop
    return ((pass.move stop).awaiting (some name)).go

/-- What a backslash begins. -/
def control (contexts : Contexts) (pass : Pass) (text : Text) : Outcome := do
  match ← verbatimBegin text pass.state.offset with
  | some env =>
    let stop ← verbatimEnd text (bodyStart env pass.state.offset) env
    return ((pass.move (stop.getD text.byteLength)).awaiting none).go
  | none =>
    let read ← commandAt text pass.state.offset
    if read.isWord then word contexts pass text read
    else return ((pass.move read.stop).awaiting none).go

/-- Opens a group for the command that waits for its argument. -/
def openFrame (contexts : Contexts) (pass : Pass) (delimiter : Delimiter) : Round Pass Relocated :=
  ({ pass with state := pass.state.openFrame contexts delimiter }.move (pass.state.offset + 1)).go

/-- What a run of white space does. -/
def blanks (pass : Pass) (text : Text) : Outcome := do
  let (stop, paragraph) ← blankRun text pass.state.offset
  return (if paragraph then (pass.move stop).awaiting none else pass.move stop).go

/-- What a byte begins. -/
def act (contexts : Contexts) (pass : Pass) (text : Text) (b : Char) : Outcome := do
  match b with
  | '%' => return (pass.move (← commentEnd text pass.state.offset)).go
  | '\\' => pass.control contexts text
  | '{' => return pass.openFrame contexts .brace
  | '[' =>
    if pass.state.pending.isSome && (← bracketEnd text pass.state.offset).isSome then
      return pass.openFrame contexts .bracket
    else return ((pass.move (pass.state.offset + 1)).awaiting none).go
  | '}' => pass.close text .brace
  | ']' => pass.close text .bracket
  | _ =>
    if isTexBlank b then pass.blanks text
    else return ((pass.move (pass.state.offset + 1)).awaiting none).go

/-- Ends the pass at the end of the text. -/
def finish (pass : Pass) (text : Text) : Outcome := do
  match pass.state.frames with
  | frame :: outer => return pass.fail (.unclosedGroup (outer.length + 1) frame.offset)
  | [] => do
    let done ← pass.flush text text.byteLength
    let tail ← sliceFrom text done.copied
    return .done ⟨.ok (done.state.output ++ tail),
      pass.state.warnings.reverse ++ openEnvironment pass.state⟩

/-- A round of the loop over the bytes of a text. -/
def round (contexts : Contexts) (text : Text) (pass : Pass) : Outcome := do
  match byteAt? text pass.state.offset with
  | none => pass.finish text
  | some b => (← pass.settle text b).act contexts text b

instance (outcome : Outcome) (after : Pass) (i : Nat) :
    Decidable (outcome = .ok (.next after i)) :=
  match outcome with
  | .ok (.next pass j) => decidable_of_iff (pass = after ∧ j = i) (by simp)
  | .ok (.done _) => isFalse nofun
  | .error _ => isFalse nofun

/-- The states that the loop comes to. -/
inductive Reached (contexts : Contexts) (text : Text) : Pass → Prop
  | start : Reached contexts text start
  | next {pass after : Pass} {i : Nat} (hreached : Reached contexts text pass)
      (hround : pass.round contexts text = .ok (.next after i)) : Reached contexts text after

end Pass

/-! ### Bytes of other characters -/

theorem ne_of_le {b d : Char} (hb : 128 ≤ b.toNat) (hd : d.toNat < 128) : b ≠ d := by
  rintro rfl
  exact absurd hd (Nat.not_lt.mpr hb)

theorem not_isTexBlank_of_le {b : Char} (hb : 128 ≤ b.toNat) : ¬ isTexBlank b = true :=
  fun hblank => absurd (lt_of_isTexBlank hblank) (Nat.not_lt.mpr hb)

theorem plain_of_le (hc : 128 ≤ c.toNat) : Plain c := by
  constructor
  · constructor <;> exact ne_of_le hc (by decide)
  all_goals exact ne_of_le hc (by decide)

/-- Such a byte begins no argument, nor white space before one. -/
theorem beginsArgument_of_le {b : Char} (hb : 128 ≤ b.toNat) :
    (b = '{' || b = '[' || isTexBlank b) = false := by
  rw [decide_eq_false (ne_of_le hb (by decide)), decide_eq_false (ne_of_le hb (by decide)),
    Bool.eq_false_iff.mpr (not_isTexBlank_of_le hb)]
  rfl

theorem Pass.act_of_le {b : Char} (hb : 128 ≤ b.toNat) (pass : Pass) :
    pass.act contexts text b = .ok ((pass.move (pass.state.offset + 1)).awaiting none).go := by
  unfold Pass.act
  split
  case h_7 => exact if_neg (not_isTexBlank_of_le hb)
  all_goals exact absurd hb (by decide)

/-! ### Rounds -/

/-- A round ends as a step does: at the position of what the step leaves, or with its error. -/
def Ends (text : Text) (warnings : List Warning) (outcome : Outcome) : Step → Prop
  | .next after rest => ∃ written copied, outcome = .ok (Pass.along after written copied).go ∧
      Copied text after rest written copied
  | .failed error => outcome = .ok (.done ⟨.error error, warnings.reverse⟩)

namespace Copied

variable {whole : Text} {written : List Text} {copied : Nat} {warnings : List Warning}

theorem offset_along (h : Copied text state rest written copied) :
    (Pass.along state written copied).state.offset = position text rest :=
  h.offset

/-- A piece is read, and nothing else is done. -/
theorem ends_emit (h : Copied text state whole written copied) (hrest : rest <:+ whole) :
    Ends text warnings (.ok ((Pass.along state written copied).move (position text rest)).go)
      (.next (state.emit (upTo whole rest)) rest) :=
  ⟨written, copied, by rw [h.move_eq hrest], h.emit hrest⟩

/-- A piece is read, and a command may wait for its argument behind it. -/
theorem ends_awaiting (h : Copied text state whole written copied) (hrest : rest <:+ whole)
    (pending : Option String) :
    Ends text warnings
      (.ok (((Pass.along state written copied).move (position text rest)).awaiting pending).go)
      (.next ((state.emit (upTo whole rest)).awaiting pending) rest) :=
  ⟨written, copied, by rw [h.move_eq hrest]; rfl, (h.emit hrest).congr rfl rfl⟩

theorem succ (h : Copied text state (c :: rest) written copied) (hc : c.utf8Size = 1) :
    (Pass.along state written copied).state.offset + 1 = position text rest := by
  rw [h.offset_along, position_succ h.suffix hc]

/-- One character of one byte is read. -/
theorem ends_char (h : Copied text state (c :: rest) written copied) (hc : c.utf8Size = 1) :
    Ends text warnings
      (.ok (((Pass.along state written copied).move
        ((Pass.along state written copied).state.offset + 1)).awaiting none).go)
      (.next ((state.emit [c]).awaiting none) rest) := by
  rw [h.succ hc, ← upTo_cons c rest]
  exact h.ends_awaiting (List.suffix_cons c rest) none

theorem close (h : Copied text state (c :: rest) written copied) (hc : c.utf8Size = 1)
    (delimiter : Delimiter) :
    Ends text state.warnings ((Pass.along state written copied).close text delimiter)
      (Relocation.close state delimiter c rest) := by
  have hfail : Ends text state.warnings
      (.ok ((Pass.along state written copied).fail
        (.unbalancedClose (Pass.along state written copied).state.offset)))
      (.failed (.unbalancedClose state.offset)) := rfl
  rw [Pass.close, Relocation.close]
  cases hframes : state.frames with
  | nil =>
    rw [show (Pass.along state written copied).state.frames = [] from hframes]
    dsimp only
    split
    · exact hfail
    · exact h.ends_char hc
  | cons frame outer =>
    rw [show (Pass.along state written copied).state.frames = frame :: outer from hframes]
    dsimp only
    split
    · have hread := h.emit (List.suffix_cons c rest)
      have hmove := h.move_eq (List.suffix_cons c rest)
      rw [upTo_cons] at hread hmove
      obtain ⟨written', copied', hclose, hcopied⟩ := hread.closeFrame frame outer
      rw [h.succ hc, hmove, hclose, ok_bind]
      exact ⟨written', copied', rfl, hcopied⟩
    · split
      · exact hfail
      · exact h.ends_char hc

theorem note (h : Copied text state whole written copied) (hrest : rest <:+ whole)
    (hrearm : state.rearm = false) :
    Ends text warnings
      ((Pass.along state written copied).note contexts text (position text rest))
      (if state.hold.isSome then .next ((state.lift (upTo whole rest)).awaiting none) rest
        else .next (((state.warn contexts).emit (upTo whole rest)).awaiting none) rest) := by
  have hheld : ((Pass.along state written copied).state.hold.isSome ||
      (Pass.along state written copied).state.rearm) = state.hold.isSome := by
    rw [show (Pass.along state written copied).state.rearm = false from hrearm, Bool.or_false]
    rfl
  rw [Pass.note, hheld]
  split
  · obtain ⟨written', copied', hlift, hcopied⟩ := h.lift hrest
    rw [hlift, ok_bind]
    exact ⟨written', copied', rfl, hcopied.congr rfl rfl⟩
  · have hwarn : Copied text (state.warn contexts) whole written copied := by
      obtain ⟨warnings, hwarn⟩ := state.exists_warn contexts
      rw [hwarn]
      exact h.congr rfl rfl
    have hpass : ({ Pass.along state written copied with
        state := (Pass.along state written copied).state.warn contexts } : Pass) =
        .along (state.warn contexts) written copied := by
      unfold State.warn
      rw [show (Pass.along state written copied).state.unknownContext? contexts =
        state.unknownContext? contexts from rfl]
      cases state.unknownContext? contexts <;> rfl
    rw [hpass]
    exact hwarn.ends_awaiting hrest none

theorem environment (h : Copied text state whole written copied) (contexts : Contexts)
    (warnings : List Warning) (hrest : rest <:+ whole) (begins : Bool) (env : String) :
    Ends text warnings
      ((Pass.along state written copied).environment contexts text begins env (position text rest))
      (.next (if begins then (state.emit (upTo whole rest)).beginEnv contexts env
        else (state.emit (upTo whole rest)).endEnv env) rest) := by
  have hread := h.emit hrest
  rw [Pass.environment, h.move_eq hrest]
  cases begins with
  | true => exact ⟨written, copied, rfl, hread.congr rfl rfl⟩
  | false =>
    obtain ⟨written', copied', hend, hcopied⟩ := hread.endEnv env
    rw [if_neg Bool.false_ne_true, if_neg Bool.false_ne_true, hend, ok_bind]
    exact ⟨written', copied', rfl, hcopied⟩

theorem word (h : Copied text state whole written copied) {name : String}
    (hwhole : whole = '\\' :: (name.toList ++ rest)) (hrearm : state.rearm = false) :
    Ends text state.warnings
      ((Pass.along state written copied).word contexts text ⟨name.toList, position text rest, true⟩)
      (Relocation.word contexts state whole name rest) := by
  have hrest : rest <:+ whole := by
    rw [hwhole]
    exact (List.suffix_append _ _).trans (List.suffix_cons _ _)
  have htext := hrest.trans h.suffix
  unfold Relocation.word
  rw [Pass.word, String.ofList_toList]
  dsimp only
  by_cases hverb : name = "verb"
  · subst hverb
    have hend : verbEnd text (position text whole) = .ok (position text (dropVerb rest)) := by
      subst hwhole
      exact verbEnd_position h.suffix
    rw [if_pos rfl, if_pos rfl, h.offset_along, hend, ok_bind]
    exact h.ends_awaiting ((dropVerb_suffix rest).trans hrest) none
  rw [if_neg hverb, if_neg hverb]
  by_cases hannot : name = "annot"
  · subst hannot
    have hend : noteEnd text (position text whole) = .ok ((noteEnd? rest).map (position text)) := by
      subst hwhole
      exact noteEnd_position h.suffix
    rw [if_pos rfl, if_pos rfl, h.offset_along, hend, ok_bind]
    cases hnote : noteEnd? rest with
    | none =>
      rw [← h.offset]
      rfl
    | some after =>
      obtain ⟨args, hargs, -⟩ := noteEnd?_replace hnote
      have hafter : after <:+ rest := hargs ▸ List.suffix_append args after
      exact h.note (hafter.trans hrest) hrearm
  rw [if_neg hannot, if_neg hannot]
  by_cases henv : name = "begin" ∨ name = "end"
  · rw [if_pos henv, if_pos henv, environmentName_position htext, ok_bind]
    cases hname : environmentName? rest with
    | none => exact h.ends_awaiting hrest none
    | some read =>
      obtain ⟨env, after⟩ := read
      obtain ⟨args, hargs, -⟩ := environmentName?_replace hname
      have hafter : after <:+ rest := hargs ▸ List.suffix_append args after
      have hends := h.environment contexts state.warnings (hafter.trans hrest) (name = "begin") env
      simp only [decide_eq_true_eq] at hends
      exact hends
  rw [if_neg henv, if_neg henv]
  by_cases hstar : rest.head? = some '*'
  · obtain ⟨tail, rfl⟩ := List.head?_eq_some_iff.mp hstar
    rw [if_pos ((byteAt?_position_iff htext (by decide)).mpr hstar), position_succ htext rfl]
    exact h.ends_awaiting ((List.suffix_cons _ _).trans hrest) (some name)
  · rw [if_neg (mt (byteAt?_position_iff htext (by decide)).mp hstar)]
    split
    · exact absurd rfl hstar
    · exact h.ends_awaiting hrest (some name)

theorem control (h : Copied text state ('\\' :: rest) written copied)
    (hrearm : state.rearm = false) :
    Ends text state.warnings ((Pass.along state written copied).control contexts text)
      (Relocation.control contexts state rest) := by
  rw [Pass.control, Relocation.control, h.offset_along, verbatimBegin_position h.suffix, ok_bind]
  dsimp only
  cases hbegins : Verbatim.begins? ('\\' :: rest) with
  | some found =>
    obtain ⟨env, body⟩ := found
    have hwhole := Verbatim.eq_append_of_begins? hbegins
    have hbody : body <:+ '\\' :: rest := hwhole ▸ List.suffix_append _ _
    have hstart : bodyStart env (position text ('\\' :: rest)) = position text body := by
      rw [hwhole]
      exact bodyStart_position (hwhole ▸ h.suffix)
    -- An environment without an end goes on to the end of the text.
    have hstop : ((env.end? body).map (position text)).getD text.byteLength =
        position text ((env.end? body).getD []) := by
      cases env.end? body with
      | none => exact (position_nil text).symm
      | some after => rfl
    have hafter : (env.end? body).getD [] <:+ body := by
      cases hend : env.end? body with
      | none => exact List.nil_suffix
      | some after => exact Verbatim.end?_suffix hend
    dsimp only [Option.map_some]
    rw [hstart, verbatimEnd_position (hbody.trans h.suffix), ok_bind, hstop]
    exact h.ends_awaiting (hafter.trans hbody) none
  | none =>
    dsimp only [Option.map_none]
    rw [commandAt_position h.suffix, ok_bind]
    have hread := (readControl_suffix rest).trans (List.suffix_cons '\\' rest)
    rcases readControl_cases rest with ⟨name, after, hcase, rfl, -⟩ | ⟨c, after, hcase, rfl, -⟩ |
      ⟨hcase, rfl⟩ <;> rw [hcase] at hread ⊢
    · exact h.word rfl hrearm
    · exact h.ends_awaiting hread none
    · exact h.ends_awaiting hread none

theorem openFrame (h : Copied text state (c :: rest) written copied) (hc : c.utf8Size = 1)
    (delimiter : Delimiter) :
    Ends text warnings
      (.ok ((Pass.along state written copied).openFrame contexts delimiter))
      (.next ((state.openFrame contexts delimiter).emit [c]) rest) := by
  have hopen : Copied text (state.openFrame contexts delimiter) (c :: rest) written copied :=
    h.congr rfl rfl
  rw [Pass.openFrame, h.succ hc, ← upTo_cons c rest]
  exact hopen.ends_emit (List.suffix_cons c rest)

theorem blanks (h : Copied text state (c :: rest) written copied) (hc : isTexBlank c = true) :
    Ends text state.warnings ((Pass.along state written copied).blanks text)
      (state.act contexts (.blanks (2 ≤ (c :: rest.takeWhile isTexBlank).count '\n'))
        (upTo (c :: rest) (rest.dropWhile isTexBlank)) (rest.dropWhile isTexBlank)) := by
  have hdrop : rest.dropWhile isTexBlank <:+ c :: rest :=
    (List.dropWhile_suffix _).trans (List.suffix_cons c rest)
  rw [Pass.blanks, h.offset_along, blankRun_position h.suffix, ok_bind,
    List.takeWhile_cons_of_pos hc, List.dropWhile_cons_of_pos hc, State.act]
  dsimp only
  split
  · exact h.ends_awaiting hdrop none
  · exact h.ends_emit hdrop

/-- **A round does what a step does**, at a character of one byte. -/
theorem act (h : Copied text state (c :: rest) written copied) (hc : c.toNat < 128)
    (hrearm : c = '\\' → state.rearm = false) :
    Ends text state.warnings ((Pass.along state written copied).act contexts text c)
      (state.act contexts (read c rest).1 (upTo (c :: rest) (read c rest).2) (read c rest).2) := by
  unfold Pass.act
  split
  · rw [h.offset_along, commentEnd_position h.suffix, ok_bind]
    exact h.ends_emit ((dropComment_suffix rest).trans (List.suffix_cons _ _))
  · rw [read_escape, ← control_eq]
    exact h.control (hrearm rfl)
  · rw [show read '\x7b' rest = _ from read_left .brace rest, upTo_cons]
    exact h.openFrame rfl .brace
  · have hpending : (Pass.along state written copied).state.pending = state.pending := rfl
    rw [h.offset_along, bracketEnd_position h.suffix, ok_bind, hpending, Option.isSome_map,
      show read '[' rest = _ from read_left .bracket rest, upTo_cons, State.act]
    split
    · exact h.openFrame rfl .bracket
    · rw [← h.offset_along]
      exact h.ends_char rfl
  · exact h.close rfl .brace
  · exact h.close rfl .bracket
  · next hcomment hescape hleft hleftBracket hright hrightBracket =>
    rw [read_of_plain ⟨⟨hescape, hleft, hright, hcomment⟩, hleftBracket, hrightBracket⟩]
    by_cases hblank : isTexBlank c = true
    · rw [if_pos hblank, if_pos hblank]
      exact h.blanks hblank
    · rw [if_neg hblank, if_neg hblank, upTo_cons]
      exact h.ends_char (utf8Size_ascii hc)

theorem round (h : Copied text state (c :: rest) written copied) (contexts : Contexts)
    (hc : c.toNat < 128) :
    Ends text state.warnings ((Pass.along state written copied).round contexts text)
      (step contexts state c rest) := by
  obtain ⟨written', copied', hsettle, hcopied⟩ := h.settle (b := c) rfl
  have hwarnings : (state.settle c).warnings = state.warnings := by
    rcases settle_cases state c with heq | heq <;> rw [heq]
    rfl
  rw [Pass.round, h.offset_along, byteAt?_position h.suffix hc]
  dsimp only
  rw [hsettle, ok_bind, step_eq, ← hwarnings]
  exact hcopied.act hc fun heq => heq ▸ rearm_settle (by decide) (by decide) (by decide)

/-- A character of several bytes is read at its first byte. -/
theorem round_first (h : Copied text state (c :: rest) written copied) (contexts : Contexts)
    (hc : 128 ≤ c.toNat) :
    ∃ after written' copied', step contexts state c rest = .next after rest ∧
      (Pass.along state written copied).round contexts text =
        .ok ((Pass.along after written' copied').move (position text (c :: rest) + 1)).go ∧
      Copied text after rest written' copied' ∧ copied' ≤ position text (c :: rest) ∧
      after.rearm = false ∧ after.pending = none := by
  obtain ⟨b, hbyte, hb⟩ := exists_byteAt?_position h.suffix
  have hlarge : 128 ≤ b.toNat := by
    rcases hb with rfl | hlarge
    · exact hc
    · exact hlarge
  obtain ⟨written', copied', hsettle, hcopied⟩ :=
    h.settle (b := b) ((beginsArgument_of_le hlarge).trans (beginsArgument_of_le hc).symm)
  have hread := hcopied.emit (List.suffix_cons c rest)
  rw [upTo_cons] at hread
  refine ⟨((state.settle c).emit [c]).awaiting none, written', copied', ?_, ?_,
    hread.congr rfl rfl, hcopied.le, ?_, rfl⟩
  · rw [step_eq, read_of_plain (plain_of_le hc), if_neg (not_isTexBlank_of_le hc), upTo_cons]
    rfl
  · rw [Pass.round, h.offset_along, hbyte]
    dsimp only
    rw [hsettle, ok_bind, Pass.act_of_le hlarge, hcopied.offset_along]
    rfl
  · exact rearm_settle (ne_of_le hc (by decide)) (ne_of_le hc (by decide))
      (Bool.eq_false_iff.mpr (not_isTexBlank_of_le hc))

/-- At the end of the text the pass comes to what the pass over characters comes to. -/
theorem finish (h : Copied text state [] written copied)
    (hreaches : Reaches contexts .start text state []) :
    (Pass.along state written copied).round contexts text =
      .ok (.done (relocate contexts text)) := by
  have hrun := (run_eq_iff_reaches _ _ _).mpr hreaches
  rw [Pass.round, h.offset_along, byteAt?_position_nil, relocate, hrun]
  dsimp only
  rw [Pass.finish]
  cases hframes : state.frames with
  | cons frame outer =>
    rw [show (Pass.along state written copied).state.frames = frame :: outer from hframes]
    rfl
  | nil =>
    obtain ⟨written', copied', hflush, hcopied⟩ := h.flush
    obtain ⟨between, hbetween, rfl, houtput⟩ := hcopied.between
    rw [List.append_nil] at hbetween
    rw [show (Pass.along state written copied).state.frames = [] from hframes]
    rw [h.offset, position_nil] at hflush
    dsimp only
    rw [hflush, ok_bind, Pass.along]
    dsimp only
    rw [List.append_nil, sliceFrom_position hbetween, ok_bind, houtput]
    rfl

end Copied

/-! ### Runs of the loop -/

/-- The pass by positions goes along with the pass over characters. -/
inductive Stands (contexts : Contexts) (text : Text) : Pass → Prop
  /-- At the position of what is left. -/
  | before {state : State} {rest : Text} {written : List Text} {copied : Nat}
      (hreaches : Reaches contexts .start text state rest)
      (hcopied : Copied text state rest written copied) :
      Stands contexts text (.along state written copied)
  /-- Inside of the character that was read last. -/
  | inside {state : State} {c : Char} {rest : Text} {written : List Text} {copied i : Nat}
      (hreaches : Reaches contexts .start text state rest)
      (hcopied : Copied text state rest written copied)
      (hchar : c :: rest <:+ text) (hc : 128 ≤ c.toNat)
      (hcursor : copied ≤ position text (c :: rest)) (hstart : position text (c :: rest) < i)
      (hstop : i < position text rest) (hrearm : state.rearm = false)
      (hpending : state.pending = none) :
      Stands contexts text ((Pass.along state written copied).move i)

namespace Stands

variable {pass : Pass}

/-- Between the first byte of a character and what follows it. -/
theorem move {written : List Text} {copied i : Nat}
    (hreaches : Reaches contexts .start text state rest)
    (hcopied : Copied text state rest written copied) (hchar : c :: rest <:+ text)
    (hc : 128 ≤ c.toNat) (hcursor : copied ≤ position text (c :: rest))
    (hstart : position text (c :: rest) < i) (hstop : i ≤ position text rest)
    (hrearm : state.rearm = false) (hpending : state.pending = none) :
    Stands contexts text ((Pass.along state written copied).move i) := by
  rcases Nat.lt_or_eq_of_le hstop with hlt | rfl
  · exact .inside hreaches hcopied hchar hc hcursor hstart hlt hrearm hpending
  · have hsame : (Pass.along state written copied).move (position text rest) =
        .along state written copied := by
      rw [← hcopied.offset]
      rfl
    rw [hsame]
    exact .before hreaches hcopied

theorem offset_le (h : Stands contexts text pass) : pass.state.offset ≤ text.byteLength := by
  cases h with
  | before _ hcopied =>
    rw [hcopied.offset_along]
    exact position_le hcopied.suffix
  | inside _ hcopied _ _ _ _ hstop =>
    exact Nat.le_trans (Nat.le_of_lt hstop) (position_le hcopied.suffix)

/-- The cursor is not ahead of the pass. -/
theorem copied_le (h : Stands contexts text pass) : pass.copied ≤ pass.state.offset := by
  cases h with
  | before _ hcopied =>
    rw [hcopied.offset_along]
    exact hcopied.le
  | inside _ _ _ _ hcursor hstart => exact Nat.le_trans hcursor (Nat.le_of_lt hstart)

theorem coherent (h : Stands contexts text pass) : Coherent pass.state := by
  cases h with
  | before hreaches =>
    have hcoherent := hreaches.coherent
    exact ⟨⟨hcoherent.frame, hcoherent.env⟩, hcoherent.free, hcoherent.waits⟩
  | inside hreaches =>
    have hcoherent := hreaches.coherent
    exact ⟨⟨hcoherent.frame, hcoherent.env⟩, hcoherent.free, hcoherent.waits⟩

/-- **A round goes along**, without a fault: it comes farther on, or it ends as the pass over
characters does. -/
theorem round (h : Stands contexts text pass) :
    (∃ after, pass.round contexts text = .ok after.go ∧ Stands contexts text after ∧
      pass.state.offset < after.state.offset) ∨
    pass.round contexts text = .ok (.done (relocate contexts text)) := by
  cases h with
  | @before state rest written copied hreaches hcopied =>
    cases rest with
    | nil => exact .inr (hcopied.finish hreaches)
    | cons c rest =>
      by_cases hc : c.toNat < 128
      · have hround := hcopied.round contexts hc
        cases hstep : step contexts state c rest with
        | next after left =>
          rw [hstep] at hround
          obtain ⟨written', copied', hround, hafter⟩ := hround
          -- A step takes at least the character it reads, so the position grows.
          refine .inl ⟨_, hround, .before (hreaches.trans (.step hstep (.refl _ _))) hafter, ?_⟩
          obtain ⟨lexeme, piece, rfl, -⟩ := exists_begins_of_step hstep
          rw [hcopied.offset_along, hafter.offset_along]
          refine position_lt_position ((List.suffix_append piece left).trans (List.suffix_cons _ _))
            hcopied.suffix ?_
          rw [List.length_cons, List.length_append]
          exact Nat.lt_succ_of_le (Nat.le_add_left _ _)
        | failed error =>
          rw [hstep] at hround
          have hrelocate : relocate contexts text = ⟨.error error, state.warnings.reverse⟩ := by
            rw [relocate, hreaches.run_eq, run_failed hstep]
          rw [hrelocate]
          exact .inr hround
      -- A character of several bytes is one step and a round for each byte: the step goes with the
      -- first byte, and the rounds at the others change the position only.
      · have hlarge := Nat.le_of_not_lt hc
        obtain ⟨after, written', copied', hstep, hround, hafter, hcursor, hrearm, hpending⟩ :=
          hcopied.round_first contexts hlarge
        have hlt : position text (c :: rest) < position text rest := by
          rw [position_cons hcopied.suffix]
          exact Nat.lt_add_of_pos_right c.utf8Size_pos
        refine .inl ⟨_, hround, move (hreaches.trans (.step hstep (.refl _ _))) hafter
          hcopied.suffix hlarge hcursor (Nat.lt_succ_self _) hlt hrearm hpending, ?_⟩
        rw [hcopied.offset_along]
        exact Nat.lt_succ_self _
  | @inside state c rest written copied i hreaches hcopied hchar hc hcursor hstart hstop hrearm
      hpending =>
    obtain ⟨b, hbyte, hb⟩ := exists_byteAt? hchar (Nat.le_of_lt hstart) hstop
    have hlarge : 128 ≤ b.toNat := by
      rcases hb with rfl | hlarge
      · exact hc
      · exact hlarge
    have hoffset : ((Pass.along state written copied).move i).state.offset = i := rfl
    have hsettle : ((Pass.along state written copied).move i).settle text b =
        .ok ((Pass.along state written copied).move i) := by
      have hnone : ((Pass.along state written copied).move i).state.rearm = false := hrearm
      rw [Pass.settle, hnone]
      rfl
    refine .inl ⟨_, ?_, move hreaches hcopied hchar hc hcursor (Nat.lt_succ_of_lt hstart) hstop
      hrearm hpending, Nat.lt_succ_self i⟩
    have hawaiting : (((Pass.along state written copied).move i).move (i + 1)).awaiting none =
        (Pass.along state written copied).move (i + 1) := by
      rw [← hpending]
      rfl
    rw [Pass.round, hoffset, hbyte]
    dsimp only
    rw [hsettle, ok_bind, Pass.act_of_le hlarge, hoffset, hawaiting]

end Stands

theorem stands_start (contexts : Contexts) (text : Text) : Stands contexts text .start :=
  .before (.refl .start text)
    ⟨(position_self text).symm, [], List.suffix_refl _, position_self text, rfl⟩

theorem Pass.Reached.stands {pass : Pass} (h : Reached contexts text pass) :
    Stands contexts text pass := by
  induction h with
  | start => exact stands_start contexts text
  | next _ hround ih =>
    rcases ih.round with ⟨after, heq, hafter, -⟩ | heq
    · rw [heq] at hround
      exact (Round.next.inj (Except.ok.inj hround)).1 ▸ hafter
    · rw [heq] at hround
      cases hround

/-- The loop comes to what the pass over characters comes to. -/
theorem Stands.loop_eq {pass : Pass} (h : Stands contexts text pass) :
    loop text.byteLength (fun pass _ => pass.round contexts text) pass pass.state.offset =
      .ok (relocate contexts text) := by
  induction hleft : text.byteLength - pass.state.offset using Nat.strongRecOn generalizing pass with
  | ind left ih =>
    rcases h.round with ⟨after, hround, hafter, hlt⟩ | hround
    · rw [loop_next hround hlt hafter.offset_le]
      refine ih _ ?_ hafter rfl
      have := hafter.offset_le
      omega
    · exact loop_done hround

/-- **The state of the relocation pass stays coherent.**  On any text and with any tables the loop
over the bytes comes to what the pass comes to, without a fault.  In every state on the way a
further argument is waited for only where nothing is held, notes wait only where something is held
or a further argument is waited for, what is held is open, the cursor is not ahead of the position,
and the round from there has no fault either: it puts back no notes before the cursor. -/
theorem relocation_coherent (contexts : Contexts) (text : Text) :
    loop text.byteLength (fun pass _ => Pass.round contexts text pass) Pass.start 0 =
        .ok (relocate contexts text) ∧
      ∀ pass, Pass.Reached contexts text pass →
        Coherent pass.state ∧ pass.copied ≤ pass.state.offset ∧
          ∃ outcome, pass.round contexts text = .ok outcome := by
  refine ⟨(stands_start contexts text).loop_eq, fun pass hreached => ?_⟩
  have hstands := hreached.stands
  refine ⟨hstands.coherent, hstands.copied_le, ?_⟩
  rcases hstands.round with ⟨after, hround, -⟩ | hround
  · exact ⟨_, hround⟩
  · exact ⟨_, hround⟩

/-- A note in a caption. -/
def captionNote : Text :=
  "\\caption\x7b\\annot\x7bk\x7d\x7bb\x7dx\x7d".toList

/-- The loop comes to the text behind the note, which waits for the end of the caption. -/
theorem relocation_coherent_captionNote :
    ∃ pass, Pass.Reached .standard captionNote pass ∧ pass.state.stash ≠ [] ∧
      pass.state.hold = some (.frame 0) ∧ pass.copied = 21 ∧
      Coherent pass.state ∧ pass.copied ≤ pass.state.offset := by
  let word : Pass := ⟨{ State.start with pending := some "caption", offset := 8 }, 0⟩
  let group : Pass := ⟨{ State.start with
    frames := [⟨.brace, some "caption", 8⟩]
    hold := some (.frame 0)
    offset := 9 }, 0⟩
  let note : Pass := ⟨{ State.start with
    frames := [⟨.brace, some "caption", 8⟩]
    hold := some (.frame 0)
    stash := ["\\annot\x7bk\x7d\x7bb\x7d".toList]
    written := ["\\caption\x7b".toList]
    offset := 21 }, 21⟩
  have hword : Pass.round .standard captionNote .start = .ok (.next word 8) := by decide +kernel
  have hgroup : Pass.round .standard captionNote word = .ok (.next group 9) := by decide +kernel
  have hnote : Pass.round .standard captionNote group = .ok (.next note 21) := by decide +kernel
  have hreached : Pass.Reached .standard captionNote note :=
    .next (.next (.next .start hword) hgroup) hnote
  obtain ⟨hcoherent, hcursor, -⟩ := (relocation_coherent .standard captionNote).2 note hreached
  exact ⟨note, hreached, List.cons_ne_nil _ _, rfl, rfl, hcoherent, hcursor⟩

end Marginalia.Offset
