import Marginalia.Proofs.Relocation.Order

/-! # The state of the pass is coherent

Six parts of the state change together, in about fifteen ways: the open groups, the open
environments, what is held, whether a further argument follows, the command that waits for one, and
the notes that wait.  In every state that the pass comes to they agree (`Reaches.coherent`):

* a further argument is waited for only where nothing is held;
* notes wait only where something is held or a further argument is waited for;
* what is held is one of the open groups or one of the open environments.

The first two are what `Sound` and `Waits` say.  The third (`Anchored`) is why a note that was taken
out is put back: the group or the environment that it waits for is still to end.
-/
namespace Marginalia.Relocation

open Text Latex

variable {contexts : Contexts} {state after : State} {lexeme : Lexeme} {text piece rest : Text}

/-- What is held is one of the open groups or one of the open environments. -/
structure Anchored (state : State) : Prop where
  /-- A group that is held is open. -/
  frame (depth : Nat) : state.hold = some (.frame depth) → depth < state.frames.length
  /-- An environment that is held is open. -/
  env (depth : Nat) : state.hold = some (.env depth) → depth < state.envs.length

namespace Anchored

theorem of_hold_eq_none (h : state.hold = none) : Anchored state where
  frame _ heq := nomatch h.symm.trans heq
  env _ heq := nomatch h.symm.trans heq

/-- What opens further groups or environments, and holds nothing else, keeps what is held. -/
theorem mono (h : Anchored state) (hhold : after.hold = state.hold)
    (hframes : state.frames.length ≤ after.frames.length)
    (henvs : state.envs.length ≤ after.envs.length) : Anchored after where
  frame depth heq := Nat.lt_of_lt_of_le (h.frame depth (hhold ▸ heq)) hframes
  env depth heq := Nat.lt_of_lt_of_le (h.env depth (hhold ▸ heq)) henvs

theorem settle (h : Anchored state) (c : Char) : Anchored (state.settle c) := by
  rcases settle_cases state c with heq | heq
  · rwa [heq]
  · rw [heq]
    exact ⟨h.frame, h.env⟩

theorem openFrame (h : Anchored state) (delimiter : Delimiter) :
    Anchored (state.openFrame contexts delimiter) := by
  unfold State.openFrame
  dsimp only
  split
  · refine ⟨fun depth heq => ?_, fun _ heq => nomatch heq⟩
    obtain rfl := Hold.frame.inj (Option.some.inj heq)
    exact Nat.lt_succ_self _
  · exact h.mono rfl (Nat.le_succ _) (Nat.le_refl _)

theorem beginEnv (h : Anchored state) (env : String) : Anchored (state.beginEnv contexts env) := by
  unfold State.beginEnv
  split
  · refine ⟨fun _ heq => (nomatch heq), fun depth heq => ?_⟩
    obtain rfl := Hold.env.inj (Option.some.inj heq)
    exact Nat.lt_succ_self _
  · exact h.mono rfl (Nat.le_refl _) (Nat.le_succ _)

/-- An environment that is held is let go as soon as it is none of the open ones. -/
theorem endEnv (h : Anchored state) (env : String) : Anchored (state.endEnv env) := by
  rcases state.endEnv_cases env with ⟨_, -, heq⟩ | ⟨hopen, heq⟩ <;> rw [heq]
  · exact of_hold_eq_none rfl
  · exact ⟨h.frame, hopen⟩

/-- A group that is held is let go when it closes, and any other group inside of it leaves it open.
-/
theorem closeFrame (h : Anchored state) {frame : Frame} {outer : List Frame}
    (hframes : state.frames = frame :: outer) (rest : Text) :
    Anchored (state.closeFrame frame outer rest) := by
  by_cases hhold : state.hold = some (.frame outer.length)
  · rw [State.closeFrame_of_hold hhold]
    split <;> exact of_hold_eq_none rfl
  · rw [State.closeFrame_of_ne hhold]
    refine ⟨fun depth heq => ?_, h.env⟩
    have hopen : depth < outer.length + 1 := by
      have hopen := h.frame depth heq
      rwa [hframes] at hopen
    refine Nat.lt_of_le_of_ne (Nat.le_of_lt_succ hopen) ?_
    rintro rfl
    exact hhold heq

theorem close (h : Anchored state) {delimiter : Delimiter} {c : Char}
    (hclose : Relocation.close state delimiter c text = .next after rest) : Anchored after := by
  unfold Relocation.close at hclose
  split at hclose
  · next frame outer hframes =>
    split at hclose
    · have hemit : Anchored (state.emit [c]) := ⟨h.frame, h.env⟩
      exact (Step.next.inj hclose).1 ▸ hemit.closeFrame hframes text
    · split at hclose
      · cases hclose
      · exact (Step.next.inj hclose).1 ▸ ⟨h.frame, h.env⟩
  · split at hclose
    · cases hclose
    · exact (Step.next.inj hclose).1 ▸ ⟨h.frame, h.env⟩

/-- **After a lexeme, too, what is held is open.** -/
theorem act (h : Anchored state) (hact : state.act contexts lexeme piece rest = .next after rest) :
    Anchored after := by
  have hemit : Anchored (state.emit piece) := ⟨h.frame, h.env⟩
  have hopen (delimiter : Delimiter) :
      Anchored ((state.openFrame contexts delimiter).emit piece) :=
    ⟨(h.openFrame delimiter).frame, (h.openFrame delimiter).env⟩
  cases lexeme with
  | comment => exact (Step.next.inj hact).1 ▸ hemit
  | escape => exact (Step.next.inj hact).1 ▸ ⟨h.frame, h.env⟩
  | verbatim => exact (Step.next.inj hact).1 ▸ ⟨h.frame, h.env⟩
  | command name => exact (Step.next.inj hact).1 ▸ ⟨h.frame, h.env⟩
  | note =>
    rw [State.act] at hact
    split at hact
    · exact (Step.next.inj hact).1 ▸ ⟨h.frame, h.env⟩
    · obtain ⟨warnings, hwarn⟩ := state.exists_warn contexts
      rw [hwarn] at hact
      exact (Step.next.inj hact).1 ▸ ⟨h.frame, h.env⟩
  | brokenNote => cases hact
  | opening env => exact (Step.next.inj hact).1 ▸ hemit.beginEnv env
  | ending env => exact (Step.next.inj hact).1 ▸ hemit.endEnv env
  | nameless => exact (Step.next.inj hact).1 ▸ ⟨h.frame, h.env⟩
  | left delimiter =>
    cases delimiter with
    | brace => exact (Step.next.inj hact).1 ▸ hopen .brace
    | bracket =>
      rw [State.act] at hact
      split at hact
      · exact (Step.next.inj hact).1 ▸ hopen .bracket
      · exact (Step.next.inj hact).1 ▸ ⟨h.frame, h.env⟩
  | right delimiter => exact h.close hact
  | blanks paragraph =>
    cases paragraph with
    | true => exact (Step.next.inj hact).1 ▸ ⟨h.frame, h.env⟩
    | false => exact (Step.next.inj hact).1 ▸ hemit
  | plain => exact (Step.next.inj hact).1 ▸ ⟨h.frame, h.env⟩

end Anchored

/-! ### Runs -/

/-- What the parts of a state have to do with each other: besides, what is held is open. -/
structure Coherent (state : State) : Prop extends Anchored state where
  /-- A further argument is waited for only where nothing is held. -/
  free : state.rearm = true → state.hold = none
  /-- Notes wait only where something is held or a further argument is waited for. -/
  waits : state.stash ≠ [] → state.hold.isSome = true ∨ state.rearm = true

theorem Reaches.waits (h : Reaches contexts state text after rest) (hwaits : Waits state) :
    Waits after := by
  induction h with
  | refl => exact hwaits
  | @step _ _ _ c _ _ _ hstep _ ih =>
    obtain ⟨_, _, rfl, -, hact⟩ := exists_begins_of_step hstep
    exact ih ((hwaits.settle c).act hact)

theorem Reaches.anchored (h : Reaches contexts state text after rest) (hanchored : Anchored state) :
    Anchored after := by
  induction h with
  | refl => exact hanchored
  | @step _ _ _ c _ _ _ hstep _ ih =>
    obtain ⟨_, _, rfl, -, hact⟩ := exists_begins_of_step hstep
    exact ih ((hanchored.settle c).act hact)

/-- **Every state that the pass comes to is coherent**, on any text and with any tables. -/
theorem Reaches.coherent (h : Reaches contexts .start text state rest) : Coherent state where
  toAnchored := h.anchored (.of_hold_eq_none rfl)
  free := (h.sound (sound_start text)).free
  waits := h.waits waits_start

end Marginalia.Relocation
