import Marginalia.Proofs.Offset.Scan
import Marginalia.Proofs.Relocation.Step

/-! # A cursor behind the pass

The relocation pass does not have to write a text piece by piece as it reads.  It may keep a cursor
up to which the text has been copied, and copy the text from the cursor on only where a note is
taken out (`Pass.lift`) or notes are put back (`Pass.flush`).  Then the cursor must not be ahead of
the position where that happens.  Notes that are put back before it are a fault, also where none
waits and nothing would be copied.

What is written and what is still to be copied is together what the pass writes that copies at once
(`Copied`).  Each operation with a cursor keeps this, without a fault, and does to the rest of the
state what the operation without one does (`Copied.flush`, …, `Copied.closeFrame`).
-/
namespace Marginalia.Offset

open Text Latex Relocation

variable {state : State} {text rest : Text} {c : Char}

deriving instance DecidableEq for State

/-- The state of the pass by positions, of which only what has been copied is written, and the
position up to which the text has been copied. -/
structure Pass where
  state : State
  copied : Nat
  deriving DecidableEq

namespace Pass

/-- The pass before the first byte. -/
def start : Pass :=
  ⟨.start, 0⟩

/-- The pass at another position. -/
def move (pass : Pass) (i : Nat) : Pass :=
  { pass with state.offset := i }

/-- The pass with the given command before its next argument. -/
def awaiting (pass : Pass) (pending : Option String) : Pass :=
  { pass with state := pass.state.awaiting pending }

/-- Takes out the note that ends at a position, and goes there. -/
def lift (pass : Pass) (text : Text) (stop : Nat) : Checked Pass := do
  let before ← slice text pass.copied pass.state.offset
  let note ← slice text pass.state.offset stop
  return ⟨{ pass.state with
    written := before :: pass.state.written
    stash := pass.state.stash ++ [note]
    offset := stop }, stop⟩

/-- Writes the notes that wait at a position, which may not be before the cursor. -/
def flush (pass : Pass) (text : Text) (i : Nat) : Checked Pass :=
  if i < pass.copied then .error .backward
  else if pass.state.stash.isEmpty then return pass
  else do
    let before ← slice text pass.copied i
    return ⟨State.flush { pass.state with written := before :: pass.state.written }, i⟩

/-- Writes the notes that wait for a further argument if the byte begins none. -/
def settle (pass : Pass) (text : Text) (b : Char) : Checked Pass := do
  if pass.state.rearm && !(b = '{' || b = '[' || isTexBlank b) then
    return { ← pass.flush text pass.state.offset with state.rearm := false }
  else return pass

/-- Ends an environment in front of the position; notes held for it are written here. -/
def endEnv (pass : Pass) (text : Text) (env : String) : Checked Pass := do
  let envs := State.closeEnv env pass.state.envs
  let pass := { pass with state.envs := envs, state.pending := none }
  match pass.state.hold with
  | some (.env depth) =>
    if envs.length ≤ depth then
      return { ← pass.flush text pass.state.offset with state.hold := none }
    else return pass
  | _ => return pass

/-- Closes the innermost group in front of the position. -/
def closeFrame (pass : Pass) (text : Text) (frame : Frame) (outer : List Frame) : Checked Pass := do
  let pass := { pass with state.frames := outer, state.pending := frame.opener }
  if pass.state.hold = some (.frame outer.length) then
    let pass := { pass with state.hold := none }
    match byteAt? text (← skipWs text pass.state.offset) with
    | some '{' => return { pass with state.rearm := true }
    | some '[' => return { pass with state.rearm := true }
    | _ => pass.flush text pass.state.offset
  else return pass

/-! ### What has been copied -/

/-- The pass in the state, but for what is written and up to where the text has been copied. -/
def along (state : State) (written : List Text) (copied : Nat) : Pass :=
  ⟨{ state with written }, copied⟩

theorem flush_along (state : State) (written : List Text) (copied : Nat) (text : Text) (i : Nat) :
    (along state written copied).flush text i =
      if i < copied then .error .backward
      else if state.stash.isEmpty then .ok (along state written copied)
      else do
        let before ← slice text copied i
        return along state.flush (state.stash.reverse ++ before :: written) i := rfl

theorem settle_along (state : State) (written : List Text) (copied : Nat) (text : Text) (b : Char) :
    (along state written copied).settle text b =
      if state.rearm && !(b = '{' || b = '[' || isTexBlank b) then do
        return { ← (along state written copied).flush text state.offset with state.rearm := false }
      else .ok (along state written copied) := rfl

theorem endEnv_along (state : State) (written : List Text) (copied : Nat) (text : Text)
    (env : String) :
    (along state written copied).endEnv text env =
      let ended := { state with envs := State.closeEnv env state.envs, pending := none }
      match state.hold with
      | some (.env depth) =>
        if ended.envs.length ≤ depth then do
          return { ← (along ended written copied).flush text state.offset with state.hold := none }
        else .ok (along ended written copied)
      | _ => .ok (along ended written copied) := rfl

theorem closeFrame_along (state : State) (written : List Text) (copied : Nat) (text : Text)
    (frame : Frame) (outer : List Frame) :
    (along state written copied).closeFrame text frame outer =
      let closed := { state with frames := outer, pending := frame.opener }
      if state.hold = some (.frame outer.length) then do
        let free := { closed with hold := none }
        match byteAt? text (← skipWs text state.offset) with
        | some '{' => return along { free with rearm := true } written copied
        | some '[' => return along { free with rearm := true } written copied
        | _ => (along free written copied).flush text state.offset
      else .ok (along closed written copied) := rfl

end Pass

/-- Whether an argument follows is seen at the first byte behind white space. -/
theorem argumentFollows_iff (h : rest <:+ text) :
    State.argumentFollows rest = true ↔
      byteAt? text (position text (skipBlanks rest)) = some '{' ∨
      byteAt? text (position text (skipBlanks rest)) = some '[' := by
  have hskip : skipBlanks rest <:+ text := (skipBlanks_suffix rest).trans h
  rw [byteAt?_position_iff hskip (by decide), byteAt?_position_iff hskip (by decide),
    State.argumentFollows]
  cases skipBlanks rest <;> simp

/-- What is written and what is still to be copied, up to the position of the rest, is what the
state has written. -/
structure Copied (text : Text) (state : State) (rest : Text) (written : List Text) (copied : Nat) :
    Prop where
  offset : state.offset = position text rest
  between : ∃ between, between ++ rest <:+ text ∧ position text (between ++ rest) = copied ∧
    state.output = written.reverse.flatten ++ between

namespace Copied

variable {whole : Text} {written : List Text} {copied : Nat}

theorem suffix (h : Copied text state rest written copied) : rest <:+ text := by
  obtain ⟨between, hbetween, -⟩ := h.between
  exact (List.suffix_append _ _).trans hbetween

/-- The cursor is not ahead of the pass. -/
theorem le (h : Copied text state rest written copied) : copied ≤ position text rest := by
  obtain ⟨between, hbetween, rfl, -⟩ := h.between
  exact position_le_position (List.suffix_append _ _) hbetween

/-- A piece that is read is not yet copied. -/
theorem emit (h : Copied text state whole written copied) (hrest : rest <:+ whole) :
    Copied text (state.emit (upTo whole rest)) rest written copied := by
  obtain ⟨between, hbetween, hcopied, houtput⟩ := h.between
  have hwhole : upTo whole rest ++ rest = whole := upTo_append hrest
  refine ⟨?_, between ++ upTo whole rest, ?_, ?_, ?_⟩
  · have hposition := position_of_append (hwhole.symm ▸ h.suffix)
    rw [hwhole, ← h.offset] at hposition
    exact hposition.symm
  · rwa [List.append_assoc, hwhole]
  · rw [List.append_assoc, hwhole, hcopied]
  · rw [State.output_emit, houtput, List.append_assoc]

theorem move_eq (h : Copied text state whole written copied) (hrest : rest <:+ whole) :
    (Pass.along state written copied).move (position text rest) =
      .along (state.emit (upTo whole rest)) written copied := by
  rw [← (h.emit hrest).offset]
  rfl

/-- The notes that wait are written behind what was still to be copied. -/
theorem flush (h : Copied text state rest written copied) :
    ∃ written' copied', (Pass.along state written copied).flush text state.offset =
        .ok (.along state.flush written' copied') ∧
      Copied text state.flush rest written' copied' := by
  rw [Pass.flush_along, h.offset, if_neg (Nat.not_lt.mpr h.le)]
  by_cases hstash : state.stash = []
  · have hflush : state.flush = state := by
      obtain ⟨frames, envs, hold, rearm, pending, stash, written, offset, warnings⟩ := state
      obtain rfl : stash = [] := hstash
      rfl
    rw [if_pos (List.isEmpty_iff.mpr hstash), hflush]
    exact ⟨written, copied, rfl, h⟩
  · obtain ⟨between, hbetween, rfl, houtput⟩ := h.between
    rw [if_neg fun hempty => hstash (List.isEmpty_iff.mp hempty), slice_position hbetween, ok_bind]
    refine ⟨state.stash.reverse ++ between :: written, position text rest, rfl, h.offset, [],
      h.suffix, rfl, ?_⟩
    rw [State.output_flush, houtput]
    simp

/-- A note is taken out behind what was still to be copied. -/
theorem lift (h : Copied text state whole written copied) (hrest : rest <:+ whole) :
    ∃ written' copied', (Pass.along state written copied).lift text (position text rest) =
        .ok (.along (state.lift (upTo whole rest)) written' copied') ∧
      Copied text (state.lift (upTo whole rest)) rest written' copied' := by
  obtain ⟨between, hbetween, rfl, houtput⟩ := h.between
  have hoffset : (state.lift (upTo whole rest)).offset = position text rest := (h.emit hrest).offset
  have hwhole : upTo whole rest ++ rest = whole := upTo_append hrest
  have hnote : slice text (position text whole) (position text rest) = .ok (upTo whole rest) := by
    have hslice := slice_position (hwhole.symm ▸ h.suffix)
    rwa [hwhole] at hslice
  rw [Pass.lift, Pass.along]
  dsimp only
  rw [h.offset, slice_position hbetween, ok_bind, hnote, ok_bind, ← hoffset]
  refine ⟨between :: written, position text rest, ?_, hoffset, [], hrest.trans h.suffix, rfl, ?_⟩
  · rw [← hoffset]
    rfl
  · have hsame : (state.lift (upTo whole rest)).output = state.output := rfl
    rw [hsame, houtput]
    simp

/-- A state that only differs in what is open, held or waited for has written the same. -/
theorem congr {state' : State} (h : Copied text state rest written copied)
    (hoffset : state'.offset = state.offset) (hwritten : state'.written = state.written) :
    Copied text state' rest written copied := by
  refine ⟨hoffset.trans h.offset, ?_⟩
  rw [State.output, hwritten]
  exact h.between

theorem settle (h : Copied text state rest written copied) {b : Char}
    (hb : (b = '{' || b = '[' || isTexBlank b) = (c = '{' || c = '[' || isTexBlank c)) :
    ∃ written' copied', (Pass.along state written copied).settle text b =
        .ok (.along (state.settle c) written' copied') ∧
      Copied text (state.settle c) rest written' copied' := by
  rw [Pass.settle_along, State.settle, hb]
  split
  · obtain ⟨written', copied', hflush, hcopied⟩ := h.flush
    rw [hflush, ok_bind]
    exact ⟨written', copied', rfl, hcopied.congr rfl rfl⟩
  · exact ⟨written, copied, rfl, h⟩

theorem endEnv (h : Copied text state rest written copied) (env : String) :
    ∃ written' copied', (Pass.along state written copied).endEnv text env =
        .ok (.along (state.endEnv env) written' copied') ∧
      Copied text (state.endEnv env) rest written' copied' := by
  have hended : Copied text { state with
      envs := State.closeEnv env state.envs
      pending := none } rest written copied := h.congr rfl rfl
  obtain ⟨written', copied', hflush, hcopied⟩ := hended.flush
  rw [Pass.endEnv_along]
  obtain ⟨frames, envs, hold, rearm, pending, stash, emitted, offset, warnings⟩ := state
  rcases hold with _ | _ | depth
  · exact ⟨written, copied, rfl, hended⟩
  · exact ⟨written, copied, rfl, hended⟩
  · rw [State.endEnv]
    dsimp only
    split
    · rw [hflush, ok_bind]
      exact ⟨written', copied', rfl, hcopied.congr rfl rfl⟩
    · exact ⟨written, copied, rfl, hended⟩

theorem closeFrame (h : Copied text state rest written copied) (frame : Frame)
    (outer : List Frame) :
    ∃ written' copied', (Pass.along state written copied).closeFrame text frame outer =
        .ok (.along (state.closeFrame frame outer rest) written' copied') ∧
      Copied text (state.closeFrame frame outer rest) rest written' copied' := by
  have hfree : Copied text { state with
      frames := outer
      pending := frame.opener
      hold := none } rest written copied := h.congr rfl rfl
  obtain ⟨written', copied', hflush, hcopied⟩ := hfree.flush
  rw [Pass.closeFrame_along]
  dsimp only
  by_cases hhold : state.hold = some (.frame outer.length)
  · have hskip : skipWs text state.offset = .ok (position text (skipBlanks rest)) := by
      rw [h.offset, skipWs_position h.suffix]
    rw [if_pos hhold, State.closeFrame_of_hold hhold, hskip, ok_bind]
    by_cases hfollows : State.argumentFollows rest = true
    · rw [if_pos hfollows]
      refine ⟨written, copied, ?_, h.congr rfl rfl⟩
      rcases (argumentFollows_iff h.suffix).mp hfollows with hbyte | hbyte <;> rw [hbyte] <;> rfl
    · rw [if_neg hfollows]
      refine ⟨written', copied', ?_, hcopied⟩
      have hnone := mt (argumentFollows_iff h.suffix).mpr hfollows
      split
      · exact absurd (.inl ‹_›) hnone
      · exact absurd (.inr ‹_›) hnone
      · exact hflush
  · rw [if_neg hhold, State.closeFrame_of_ne hhold]
    exact ⟨written, copied, rfl, h.congr rfl rfl⟩

end Copied

end Marginalia.Offset
