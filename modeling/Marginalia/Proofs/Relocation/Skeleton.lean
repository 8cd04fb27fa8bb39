import Marginalia.Proofs.Relocation.Lexeme

/-! # The skeleton of the pass

Which groups and environments are open, and which command waits for an argument, does not depend
on the restricted contexts, nor on what was taken out or written.  The skeleton of a state keeps
just that; it makes the same steps as the state (`act_skeleton`), so two runs with the same
skeleton read the same text, and fail together.

`Reaches` follows the pass from a state and a text to a state and what is left of the text.  The
pass succeeds if and only if it reaches the end of the text with no group open
(`relocate_eq_ok_iff`).
-/
namespace Marginalia.Relocation

open Text Latex

variable {contexts : Contexts} {state after : State}

/-- What a run over a text depends on: the open groups with their openers, the open environments,
and the command that waits for an argument. -/
structure Skeleton where
  frames : List (Delimiter × Option String)
  envs : List String
  pending : Option String

namespace Skeleton

/-- The skeleton before the first character. -/
def start : Skeleton :=
  ⟨[], [], none⟩

def awaiting (skeleton : Skeleton) (pending : Option String) : Skeleton :=
  { skeleton with pending }

/-- Opens a group for the command that waits for its argument. -/
def openFrame (skeleton : Skeleton) (delimiter : Delimiter) : Skeleton :=
  { skeleton with
    frames := (delimiter, skeleton.pending) :: skeleton.frames
    pending := none }

/-- Closes a group; a bracket that closes none is a character like others. -/
def close (skeleton : Skeleton) (delimiter : Delimiter) : Option Skeleton :=
  match skeleton.frames with
  | (opened, opener) :: outer =>
    if opened = delimiter then some { skeleton with frames := outer, pending := opener }
    else if delimiter = .brace then none
    else some (skeleton.awaiting none)
  | [] => if delimiter = .brace then none else some (skeleton.awaiting none)

/-- What a lexeme does to a skeleton; `closes` tells whether a bracketed argument would close. -/
def act (skeleton : Skeleton) (lexeme : Lexeme) (closes : Bool) : Option Skeleton :=
  match lexeme with
  | .comment | .blanks false => some skeleton
  | .escape | .verbatim | .nameless | .plain | .note | .blanks true => some (skeleton.awaiting none)
  | .command name => some (skeleton.awaiting (some name))
  | .brokenNote => none
  | .opening env => some { skeleton with envs := env :: skeleton.envs, pending := some "begin" }
  | .ending env =>
    some { skeleton with envs := State.closeEnv env skeleton.envs, pending := none }
  | .left .brace => some (skeleton.openFrame .brace)
  | .left .bracket =>
    some (if skeleton.pending.isSome && closes then skeleton.openFrame .bracket
      else skeleton.awaiting none)
  | .right delimiter => skeleton.close delimiter

end Skeleton

/-- Whether a bracketed argument closes in the text. -/
def bracketCloses (text : Text) : Bool :=
  (readBracket? ('[' :: text)).isSome

theorem bracketCloses_eq {text text' : Text} (h : ∀ depth, Closes depth text ↔ Closes depth text') :
    bracketCloses text = bracketCloses text' := by
  rw [Bool.eq_iff_iff]
  exact (closes_zero_iff text).symm.trans ((h 0).trans (closes_zero_iff text'))

/-! ### The skeleton of a state -/

/-- What a run from the state depends on. -/
def State.skeleton (state : State) : Skeleton :=
  ⟨state.frames.map fun frame => (frame.delimiter, frame.opener), state.envs, state.pending⟩

namespace State

@[simp] theorem skeleton_emit (state : State) (piece : Text) :
    (state.emit piece).skeleton = state.skeleton := rfl

@[simp] theorem skeleton_lift (state : State) (note : Text) :
    (state.lift note).skeleton = state.skeleton := rfl

@[simp] theorem skeleton_flush (state : State) : state.flush.skeleton = state.skeleton := rfl

@[simp] theorem skeleton_awaiting (state : State) (pending : Option String) :
    (state.awaiting pending).skeleton = state.skeleton.awaiting pending := rfl

@[simp] theorem skeleton_warn (state : State) (contexts : Contexts) :
    (state.warn contexts).skeleton = state.skeleton := by
  obtain ⟨warnings, hwarn⟩ := state.exists_warn contexts
  rw [hwarn]
  rfl

@[simp] theorem skeleton_settle (state : State) (c : Char) :
    (state.settle c).skeleton = state.skeleton := by
  unfold settle
  split <;> rfl

@[simp] theorem skeleton_openFrame (state : State) (contexts : Contexts) (delimiter : Delimiter) :
    (state.openFrame contexts delimiter).skeleton = state.skeleton.openFrame delimiter := rfl

@[simp] theorem skeleton_endEnv (state : State) (env : String) :
    (state.endEnv env).skeleton =
      { state.skeleton with envs := closeEnv env state.envs, pending := none } := by
  rcases state.endEnv_cases env with ⟨_, -, heq⟩ | ⟨-, heq⟩ <;> rw [heq] <;> rfl

theorem skeleton_closeFrame (state : State) (frame : Frame) (outer : List Frame) (rest : Text) :
    (state.closeFrame frame outer rest).skeleton =
      ({ state with frames := outer, pending := frame.opener } : State).skeleton := by
  unfold closeFrame
  dsimp only
  split
  · split <;> rfl
  · rfl

end State

/-- A closing delimiter does to the skeleton what it does to the state. -/
theorem close_skeleton (state : State) (delimiter : Delimiter) (rest : Text) :
    (∃ after, close state delimiter delimiter.right rest = .next after rest ∧
      state.skeleton.close delimiter = some after.skeleton) ∨
    (∃ error, close state delimiter delimiter.right rest = .failed error) ∧
      state.skeleton.close delimiter = none := by
  unfold close Skeleton.close
  cases hframes : state.frames with
  | nil =>
    have hskeleton : state.skeleton.frames = [] := by rw [State.skeleton, hframes, List.map_nil]
    rw [hskeleton]
    cases delimiter with
    | brace => exact .inr ⟨⟨_, rfl⟩, rfl⟩
    | bracket => exact .inl ⟨_, rfl, rfl⟩
  | cons frame outer =>
    have hskeleton : state.skeleton.frames = (frame.delimiter, frame.opener) ::
        outer.map fun frame => (frame.delimiter, frame.opener) := by
      rw [State.skeleton, hframes, List.map_cons]
    rw [hskeleton]
    dsimp only
    by_cases hopened : frame.delimiter = delimiter
    · rw [if_pos hopened, if_pos hopened]
      refine .inl ⟨_, rfl, congrArg some ?_⟩
      exact (State.skeleton_closeFrame (state.emit [delimiter.right]) frame outer rest).symm
    · rw [if_neg hopened, if_neg hopened]
      cases delimiter with
      | brace => exact .inr ⟨⟨_, rfl⟩, rfl⟩
      | bracket => exact .inl ⟨_, rfl, rfl⟩

/-- **A lexeme does to the skeleton what it does to the state.** -/
theorem act_skeleton (contexts : Contexts) (state : State) (lexeme : Lexeme) (piece rest : Text) :
    (∃ after, state.act contexts lexeme piece rest = .next after rest ∧
      state.skeleton.act lexeme (bracketCloses rest) = some after.skeleton) ∨
    (∃ error, state.act contexts lexeme piece rest = .failed error) ∧
      state.skeleton.act lexeme (bracketCloses rest) = none := by
  unfold State.act Skeleton.act
  cases lexeme with
  | comment => exact .inl ⟨_, rfl, rfl⟩
  | escape => exact .inl ⟨_, rfl, rfl⟩
  | verbatim => exact .inl ⟨_, rfl, rfl⟩
  | command name => exact .inl ⟨_, rfl, rfl⟩
  | note =>
    dsimp only
    split
    · exact .inl ⟨_, rfl, rfl⟩
    · exact .inl ⟨_, rfl, by simp⟩
  | brokenNote => exact .inr ⟨⟨_, rfl⟩, rfl⟩
  | opening env => exact .inl ⟨_, rfl, rfl⟩
  | ending env => exact .inl ⟨_, rfl, by rw [State.skeleton_endEnv]; rfl⟩
  | nameless => exact .inl ⟨_, rfl, rfl⟩
  | left delimiter =>
    cases delimiter with
    | brace => exact .inl ⟨_, rfl, rfl⟩
    | bracket =>
      dsimp only
      by_cases hopens : (state.pending.isSome && (readBracket? ('[' :: rest)).isSome) = true
      · refine .inl ⟨_, if_pos hopens, ?_⟩
        rw [show state.skeleton.pending = state.pending from rfl, bracketCloses, if_pos hopens]
        rfl
      · refine .inl ⟨_, if_neg hopens, ?_⟩
        rw [show state.skeleton.pending = state.pending from rfl, bracketCloses, if_neg hopens]
        rfl
  | right delimiter => exact close_skeleton state delimiter rest
  | blanks paragraph =>
    cases paragraph with
    | true => exact .inl ⟨_, rfl, rfl⟩
    | false => exact .inl ⟨_, rfl, rfl⟩
  | plain => exact .inl ⟨_, rfl, rfl⟩

/-! ### Runs -/

/-- From the state, on the text, the pass comes to the state `after`, where `rest` is left. -/
inductive Reaches (contexts : Contexts) : State → Text → State → Text → Prop
  | refl (state : State) (text : Text) : Reaches contexts state text state text
  | step {state mid after : State} {c : Char} {text left rest : Text}
      (hstep : Relocation.step contexts state c text = .next mid left)
      (hreaches : Reaches contexts mid left after rest) :
      Reaches contexts state (c :: text) after rest

theorem Reaches.trans {mid : State} {text left rest : Text}
    (h : Reaches contexts state text mid left) (h' : Reaches contexts mid left after rest) :
    Reaches contexts state text after rest := by
  induction h with
  | refl => exact h'
  | step hstep _ ih => exact .step hstep (ih h')

/-- A run goes on from any state that it comes to. -/
theorem Reaches.run_eq {text rest : Text} (h : Reaches contexts state text after rest) :
    run contexts state text = run contexts after rest := by
  induction h with
  | refl => rfl
  | step hstep _ ih => rw [run_cons hstep, ih]

theorem run_eq_iff_reaches (state : State) (text : Text) (final : State) :
    run contexts state text = (final, none) ↔ Reaches contexts state text final [] := by
  constructor
  · intro h
    fun_induction run contexts state text with
    | case1 state =>
      obtain rfl := (Prod.mk.inj h).1
      exact .refl state []
    | case2 state c text mid left hstep ih => exact .step hstep (ih h)
    | case3 => cases (Prod.mk.inj h).2
  · intro h
    generalize hnil : ([] : Text) = rest at h
    induction h with
    | refl state =>
      rw [← hnil, run_nil]
    | step hstep _ ih =>
      rw [run_cons hstep, ih hnil]

/-- The pass succeeds if it reaches the end of the text with no group open. -/
theorem relocate_eq_ok_iff (text out : Text) :
    (relocate contexts text).result = .ok out ↔
      ∃ final, Reaches contexts .start text final [] ∧ final.frames = [] ∧
        final.flush.output = out := by
  constructor
  · intro h
    unfold relocate at h
    split at h
    · cases h
    · next final hrun =>
      split at h
      · cases h
      · next hframes =>
        exact ⟨final, (run_eq_iff_reaches _ _ _).mp hrun, hframes, Except.ok.inj h⟩
  · rintro ⟨final, hreaches, hframes, rfl⟩
    unfold relocate
    rw [(run_eq_iff_reaches _ _ _).mpr hreaches]
    dsimp only
    rw [hframes]

/-! ### Runs of skeletons -/

/-- From the skeleton, on the text, a run comes to the skeleton `after`, where `rest` is left. -/
inductive Skeleton.Reaches : Skeleton → Text → Skeleton → Text → Prop
  | refl (skeleton : Skeleton) (text : Text) : Reaches skeleton text skeleton text
  | step {skeleton mid after : Skeleton} {lexeme : Lexeme} {piece left rest : Text}
      (hbegins : Begins lexeme piece left) (hact : skeleton.act lexeme (bracketCloses left) = some mid)
      (hreaches : Reaches mid left after rest) : Reaches skeleton (piece ++ left) after rest

/-- A step of the pass, by the lexeme it reads. -/
theorem Begins.step_eq {lexeme : Lexeme} {piece rest : Text} (h : Begins lexeme piece rest)
    (contexts : Contexts) (state : State) : ∃ c text, piece ++ rest = c :: text ∧ read c text = (lexeme, rest) ∧
      step contexts state c text = (state.settle c).act contexts lexeme piece rest := by
  obtain ⟨c, text, htext, hread⟩ := h
  refine ⟨c, text, htext, hread, ?_⟩
  rw [Relocation.step_eq, hread, ← htext, upTo_append_right]

/-- A run goes on with the lexeme that comes next. -/
theorem Reaches.reads {mid : State} {lexeme : Lexeme} {c : Char} {text left tail rest : Text}
    (h : Reaches contexts state text mid left) (hbegins : Begins lexeme (c :: tail) rest)
    (hleft : left = c :: tail ++ rest)
    (hact : (mid.settle c).act contexts lexeme (c :: tail) rest = .next after rest) :
    Reaches contexts state text after rest := by
  subst hleft
  obtain ⟨d, text, htext, -, hstep⟩ := hbegins.step_eq contexts mid
  obtain ⟨rfl, rfl⟩ := List.cons.inj htext
  exact h.trans (.step (hstep.trans hact) (.refl after rest))

/-- The skeleton of a run is a run of the skeleton. -/
theorem Reaches.skeleton {text rest : Text} (h : Reaches contexts state text after rest) :
    state.skeleton.Reaches text after.skeleton rest := by
  induction h with
  | refl => exact .refl _ _
  | @step state mid after c text left rest hstep _ ih =>
    have hbegins := begins_read c text
    rw [step_eq] at hstep
    rw [← upTo_append ((read_suffix c text).trans (List.suffix_cons c text))]
    rcases act_skeleton contexts (state.settle c) (read c text).1
      (upTo (c :: text) (read c text).2) (read c text).2 with ⟨after, hact, hskeleton⟩ | ⟨⟨_, hact⟩, -⟩
    · obtain ⟨rfl, rfl⟩ := Step.next.inj (hstep.symm.trans hact)
      rw [State.skeleton_settle] at hskeleton
      exact .step hbegins hskeleton ih
    · cases hstep.symm.trans hact

/-- A run of the skeleton of a state is the skeleton of a run. -/
theorem Skeleton.Reaches.lift {skeleton last : Skeleton} {text rest : Text}
    (h : skeleton.Reaches text last rest) (contexts : Contexts) {state : State}
    (hstate : state.skeleton = skeleton) :
    ∃ after, Relocation.Reaches contexts state text after rest ∧ after.skeleton = last := by
  induction h generalizing state with
  | refl => exact ⟨state, .refl _ _, hstate⟩
  | @step skeleton mid after lexeme piece left rest hbegins hact _ ih =>
    obtain ⟨c, text, htext, -, hstep⟩ := hbegins.step_eq contexts state
    rcases act_skeleton contexts (state.settle c) lexeme piece left with
      ⟨next, hnext, hskeleton⟩ | ⟨-, hnone⟩
    · rw [State.skeleton_settle, hstate, hact, Option.some.injEq] at hskeleton
      obtain ⟨after, hreaches, hafter⟩ := ih hskeleton.symm
      refine ⟨after, ?_, hafter⟩
      rw [htext]
      exact .step (hstep.trans hnext) hreaches
    · rw [State.skeleton_settle, hstate, hact] at hnone
      cases hnone

/-- **Whether the pass succeeds is a matter of the skeleton**, and so not of the contexts. -/
theorem relocate_ok_iff_skeleton (text : Text) :
    (∃ out, (relocate contexts text).result = .ok out) ↔
      ∃ last, Skeleton.start.Reaches text last [] ∧ last.frames = [] := by
  constructor
  · rintro ⟨out, h⟩
    obtain ⟨final, hreaches, hframes, -⟩ := (relocate_eq_ok_iff text out).mp h
    refine ⟨final.skeleton, hreaches.skeleton, ?_⟩
    rw [State.skeleton, hframes, List.map_nil]
  · rintro ⟨last, hreaches, hframes⟩
    obtain ⟨final, hfinal, rfl⟩ := hreaches.lift contexts
      (show State.start.skeleton = Skeleton.start from rfl)
    exact ⟨_, (relocate_eq_ok_iff text _).mpr ⟨final, hfinal, List.map_eq_nil_iff.mp hframes, rfl⟩⟩

end Marginalia.Relocation
