import Marginalia.Proofs.Relocation.Safety

/-! # The relocated text is safe

On an orderly text the pass writes a safe text (`relocate_safe`).  A text is orderly if, all along
the run, four things hold (`OrderlyAt`):

* where nothing is held, no restricted context is open: the contexts close in the order in which
  they opened, `\begin{tabular}\caption{\end{tabular}` is excluded;
* no lexeme is cut off by the end of the text while notes wait, and verbatim text hides no
  delimiter from the search for the end of an argument;
* the text around a note that is taken out does not join to another control word, as in
  `\be\annot{k}{b}gin`, nor does the note part a command from its argument;
* notes that are put back do not part a command from its argument.

The proof compares the run over what is written with the run that writes it.  The two agree on the
open groups and environments.  They may differ in the command that waits for an argument, but only
where no argument comes (`Matches`), and in white space that the first has read while the second,
for which a note no longer stands in it, has not (`Continues`).
-/
namespace Marginalia.Relocation

open Text Latex

variable {contexts : Contexts} {state mid after final : State} {lexeme : Lexeme}
  {piece rest text : Text}

/-! ### Orderly texts -/

/-- Whether an argument comes at or behind the lexeme, given whether one comes behind it.  White
space within a paragraph and comments are passed over, and so are notes that are taken out. -/
def Lexeme.argumentAhead (lexeme : Lexeme) (held behind : Bool) : Bool :=
  match lexeme with
  | .left _ => true
  | .comment | .blanks false => behind
  | .note => held && behind
  | _ => false

/-- Whether an argument comes next in the text. -/
def argumentAhead (held : Bool) (text : Text) : Bool :=
  match text with
  | [] => false
  | c :: text => (read c text).1.argumentAhead held (argumentAhead held (read c text).2)
termination_by text.length
decreasing_by exact Nat.lt_succ_of_le (read_suffix c text).length_le

/-- The last piece that was written is a control word. -/
def State.EndsInWord (state : State) : Prop :=
  ∃ name, CommandName name ∧ state.written.head? = some ('\\' :: name.toList)

/-- What an orderly text keeps to, at one place of the run. -/
structure OrderlyAt (contexts : Contexts) (state : State) (text : Text) : Prop where
  /-- Where nothing is held, no restricted context is open. -/
  nested : state.hold = none → Placeable contexts state text
  /-- No lexeme is cut off by the end of the text, unless no note waits to be put there. -/
  complete : ∀ lexeme piece rest, text = piece ++ rest → Begins lexeme piece rest →
    lexeme.Shut piece ∨ rest = [] ∧ (state.stash = [] ∨ state.rearm = true)
  /-- A note that is taken out parts neither a control word nor a command from its argument. -/
  apart : ∀ piece rest, text = piece ++ rest → Begins .note piece rest →
    state.hold.isSome = true → (state.EndsInWord → Stops extendsWord rest) ∧
      (state.pending.isSome = true → argumentAhead true rest = false)
  /-- Notes that are put back part no command from its argument. -/
  returned : ∀ c tail after rest, text = c :: tail → step contexts state c tail = .next after rest →
    state.rearm = false → state.stash ≠ [] → after.stash = [] → after.pending.isSome = true →
    argumentAhead false rest = false

/-- The text keeps to order all along the run from the state. -/
def Orderly (contexts : Contexts) (state : State) (text : Text) : Prop :=
  ∀ later rest, Reaches contexts state text later rest → OrderlyAt contexts later rest

theorem Orderly.of_reaches (h : Orderly contexts state text)
    (hreaches : Reaches contexts state text after rest) : Orderly contexts after rest :=
  fun later left hlater => h later left (hreaches.trans hlater)

/-! ### Lexemes by their first character -/

theorem Begins.eq_cons (h : Begins lexeme piece rest) :
    ∃ c tail, piece = c :: tail ∧ read c (tail ++ rest) = (lexeme, rest) := by
  obtain ⟨c, text, htext, hread⟩ := h
  cases piece with
  | nil =>
    have hsuffix := (read_suffix c text).length_le
    rw [hread] at hsuffix
    have hlength := congrArg List.length htext
    simp at hsuffix hlength
    omega
  | cons d tail =>
    obtain ⟨rfl, rfl⟩ := List.cons.inj htext
    exact ⟨d, tail, rfl, hread⟩

theorem Begins.read_eq {c : Char} {tail : Text} (h : Begins lexeme piece rest)
    (hpiece : piece = c :: tail) : read c (tail ++ rest) = (lexeme, rest) := by
  obtain ⟨d, tail', hcons, hread⟩ := h.eq_cons
  obtain ⟨rfl, rfl⟩ := List.cons.inj (hpiece.symm.trans hcons)
  exact hread

theorem Begins.of_blank {c : Char} {tail : Text} (h : Begins lexeme piece rest)
    (hpiece : piece = c :: tail) (hc : isTexBlank c = true) :
    ∃ paragraph, lexeme = .blanks paragraph := by
  have hread := h.read_eq hpiece
  rw [read_of_plain (plain_of_isTexBlank hc), if_pos hc] at hread
  exact ⟨_, (Prod.mk.inj hread).1.symm⟩

/-- What begins like an argument or white space before one. -/
theorem Begins.of_first {c : Char} {tail : Text} (h : Begins lexeme piece rest)
    (hpiece : piece = c :: tail) (hc : c = '{' ∨ c = '[' ∨ isTexBlank c = true) :
    (∃ delimiter, lexeme = .left delimiter) ∨ ∃ paragraph, lexeme = .blanks paragraph := by
  rcases hc with rfl | rfl | hc
  · exact .inl ⟨.brace, (Prod.mk.inj ((read_left .brace _).symm.trans (h.read_eq hpiece))).1.symm⟩
  · exact .inl ⟨.bracket, (Prod.mk.inj ((read_left .bracket _).symm.trans (h.read_eq hpiece))).1.symm⟩
  · exact .inr (h.of_blank hpiece hc)

theorem Begins.blanks {paragraph : Bool} (h : Begins (.blanks paragraph) piece rest) :
    (∀ c ∈ piece, isTexBlank c = true) ∧ Stops isTexBlank rest ∧
      paragraph = decide (2 ≤ piece.count '\n') := by
  have hlexes := h.lexes ⟨by simp, by simp, by simp⟩
  generalize hlexeme : Lexeme.blanks paragraph = lexeme at hlexes
  cases hlexes with
  | blanks _ hrun hrest => exact ⟨hrun, hrest, Lexeme.blanks.inj hlexeme⟩
  | _ => cases hlexeme

theorem Begins.argumentAhead (h : Begins lexeme piece rest) (held : Bool) :
    Relocation.argumentAhead held (piece ++ rest) =
      lexeme.argumentAhead held (Relocation.argumentAhead held rest) := by
  obtain ⟨c, text, htext, hread⟩ := h
  rw [htext, Relocation.argumentAhead, hread]

/-! ### What the pass keeps to -/

/-- What holds all along a run: notes wait for a further argument only if one may come, and only
notes wait. -/
structure Sound (state : State) (text : Text) : Prop where
  free : state.rearm = true → state.hold = none
  follows : state.rearm = true → state.pending = none ∨ State.argumentFollows text = true
  notes : ∀ note ∈ state.stash, IsNote note

theorem sound_start (text : Text) : Sound .start text :=
  ⟨fun h => (by cases h), fun h => (by cases h), List.forall_mem_nil _⟩

theorem Sound.of_not_rearm (hrearm : state.rearm = false)
    (hnotes : ∀ note ∈ state.stash, IsNote note) : Sound state text := by
  refine ⟨?_, ?_, hnotes⟩
  all_goals
    intro h
    rw [hrearm] at h
    cases h

/-- While a context is open, none has just closed. -/
theorem Sound.rearm_eq_false (h : Sound state text) (hhold : state.hold.isSome = true) :
    state.rearm = false := by
  cases hrearm : state.rearm with
  | false => rfl
  | true =>
    rw [h.free hrearm] at hhold
    cases hhold

/-- White space before an argument is passed over. -/
theorem argumentFollows_of_blanks {blanks : Text} (hblanks : ∀ c ∈ blanks, isTexBlank c = true)
    (htext : Stops isTexBlank text) (h : State.argumentFollows (blanks ++ text) = true) :
    State.argumentFollows text = true := by
  unfold State.argumentFollows at h
  split at h
  · next c rest hskip =>
    obtain ⟨front, heq, hfront, -⟩ := skipBlanks_replace hskip
    simp only [Bool.or_eq_true, decide_eq_true_eq] at h
    have hstops : Stops isTexBlank (c :: rest) := by
      rw [stops_cons]
      rcases h with rfl | rfl <;> decide
    obtain ⟨-, rfl⟩ := append_stop_inj hblanks hfront htext hstops heq
    rcases h with rfl | rfl <;> rfl
  · cases h

/-- Before a character that begins no argument, the notes that wait for one are written; no command
waits there. -/
theorem Sound.settle {c : Char} (h : Sound state (c :: text)) :
    state.settle c = state ∧ (state.rearm = true → c = '{' ∨ c = '[' ∨ isTexBlank c = true) ∨
    state.settle c = { state.flush with rearm := false } ∧ state.rearm = true ∧
      state.pending = none := by
  unfold State.settle
  by_cases hrearm : state.rearm = true
  · by_cases hc : c = '{' ∨ c = '[' ∨ isTexBlank c = true
    · refine .inl ⟨if_neg ?_, fun _ => hc⟩
      simp only [hrearm, Bool.true_and, Bool.not_eq_true', Bool.not_eq_false, Bool.or_eq_true,
        decide_eq_true_eq]
      rcases hc with hc | hc | hc
      · exact .inl (.inl hc)
      · exact .inl (.inr hc)
      · exact .inr hc
    · refine .inr ⟨if_pos ?_, hrearm, ?_⟩
      · simp only [not_or] at hc
        simp [hrearm, hc]
      · refine (h.follows hrearm).resolve_right fun hfollows => hc ?_
        have hblank : ¬ isTexBlank c = true := fun hblank => hc (.inr (.inr hblank))
        simp only [isTexBlank, Bool.or_eq_true, beq_iff_eq, not_or] at hblank
        have hskip : skipBlanks (c :: text) = c :: text := by
          rw [skipBlanks, skipBlanksUpTo, if_neg (by simp [hblank]), if_neg (by simp [hblank])]
        rw [State.argumentFollows, hskip] at hfollows
        simp only [Bool.or_eq_true, decide_eq_true_eq] at hfollows
        exact hfollows.elim .inl fun h => .inr (.inl h)
  · refine .inl ⟨if_neg ?_, fun h => absurd h hrearm⟩
    simp [hrearm]

/-- What is done before a lexeme that the character `c` begins: the notes were written. -/
structure Settled (state : State) (c : Char) (text : Text) (flushed : List Text) : Prop where
  notes : ∀ note ∈ flushed, IsNote note
  output : (state.settle c).output = state.output ++ flushed.flatten
  free : flushed ≠ [] → state.hold = none ∧ state.pending = none
  sound : Sound (state.settle c) (c :: text)
  skeleton : (state.settle c).skeleton = state.skeleton
  hold : (state.settle c).hold = state.hold
  rearm : (state.settle c).rearm = true → c = '{' ∨ c = '[' ∨ isTexBlank c = true
  same : state.rearm = false → state.settle c = state
  stash : state.stash = [] ∨ state.rearm = true →
    (state.settle c).stash = [] ∨ c = '{' ∨ c = '[' ∨ isTexBlank c = true

theorem Sound.settled {c : Char} (h : Sound state (c :: text)) :
    ∃ flushed, Settled state c text flushed := by
  rcases h.settle with ⟨hsettle, hfirst⟩ | ⟨hsettle, hrearm, hpending⟩
  · refine ⟨[], by simp, ?_, fun hne => absurd rfl hne, ?_, ?_, ?_, ?_, fun _ => hsettle, ?_⟩
    all_goals rw [hsettle]
    · rw [List.flatten_nil, List.append_nil]
    · exact h
    · exact hfirst
    · exact fun hstash => hstash.imp_right hfirst
  · refine ⟨state.stash, h.notes, ?_, fun _ => ⟨h.free hrearm, hpending⟩, ?_, ?_, ?_, ?_, ?_, ?_⟩
    · rw [hsettle]
      exact State.output_flush state
    · rw [hsettle]
      exact .of_not_rearm rfl (List.forall_mem_nil _)
    · exact State.skeleton_settle state c
    · rw [hsettle]
      rfl
    · rw [hsettle]
      simp
    · intro hoff
      rw [hrearm] at hoff
      cases hoff
    · rw [hsettle]
      exact fun _ => .inl rfl

/-! ### What a lexeme does -/

/-- What a lexeme that stays has written: its piece, and behind it, if what was held has ended, the
notes that waited. -/
def Wrote (state after : State) (piece : Text) : Prop :=
  after.output = state.output ++ piece ∧ after.stash = state.stash ∨
  after.output = state.output ++ piece ++ state.stash.flatten ∧ after.stash = [] ∧
    state.hold.isSome = true ∧ after.hold = none

theorem wrote_of_written (hwritten : after.written = piece :: state.written)
    (hstash : after.stash = state.stash) : Wrote state after piece := by
  refine .inl ⟨?_, hstash⟩
  rw [State.output, hwritten, ← State.output_emit]
  rfl

theorem wrote_closeFrame (state : State) (piece : Text) (frame : Frame) (outer : List Frame)
    (rest : Text) : Wrote state ((state.emit piece).closeFrame frame outer rest) piece := by
  by_cases hhold : (state.emit piece).hold = some (.frame outer.length)
  · rw [State.closeFrame_of_hold hhold]
    split
    · exact wrote_of_written rfl rfl
    · refine .inr ⟨?_, rfl, ?_, rfl⟩
      · rw [← State.output_emit]
        exact State.output_flush _
      · rw [show state.hold = _ from hhold]
        rfl
  · rw [State.closeFrame_of_ne hhold]
    exact wrote_of_written rfl rfl

theorem wrote_endEnv (state : State) (piece : Text) (env : String) :
    Wrote state ((state.emit piece).endEnv env) piece := by
  rcases (state.emit piece).endEnv_cases env with ⟨depth, hhold, heq⟩ | ⟨-, heq⟩ <;> rw [heq]
  · refine .inr ⟨?_, rfl, ?_, rfl⟩
    · rw [← State.output_emit]
      exact State.output_flush _
    · rw [show state.hold = _ from hhold]
      rfl
  · exact wrote_of_written rfl rfl

theorem close_cases {delimiter : Delimiter}
    (h : close state delimiter delimiter.right text = .next after rest) :
    after = (state.emit [delimiter.right]).awaiting none ∨
    ∃ frame outer, after = (state.emit [delimiter.right]).closeFrame frame outer text := by
  unfold close at h
  split at h
  · next frame outer _ =>
    split at h
    · exact .inr ⟨frame, outer, (Step.next.inj h).1.symm⟩
    · split at h
      · cases h
      · exact .inl (Step.next.inj h).1.symm
  · split at h
    · cases h
    · exact .inl (Step.next.inj h).1.symm

theorem Begins.left_eq {delimiter : Delimiter} (h : Begins (.left delimiter) piece rest) :
    piece = [delimiter.left] := by
  cases h.lexes ⟨by simp, by simp, by simp⟩
  rfl

theorem Begins.right_eq {delimiter : Delimiter} (h : Begins (.right delimiter) piece rest) :
    piece = [delimiter.right] := by
  cases h.lexes ⟨by simp, by simp, by simp⟩
  rfl

/-- **A lexeme that stays is written**, and the notes that waited at most behind it. -/
theorem act_wrote (hbegins : Begins lexeme piece rest)
    (hact : state.act contexts lexeme piece rest = .next after rest)
    (hstays : lexeme = .note → state.hold = none) : Wrote state after piece := by
  cases lexeme with
  | comment => exact (Step.next.inj hact).1 ▸ wrote_of_written rfl rfl
  | escape => exact (Step.next.inj hact).1 ▸ wrote_of_written rfl rfl
  | verbatim => exact (Step.next.inj hact).1 ▸ wrote_of_written rfl rfl
  | command name => exact (Step.next.inj hact).1 ▸ wrote_of_written rfl rfl
  | note =>
    rw [State.act, hstays rfl] at hact
    obtain ⟨warnings, hwarn⟩ := state.exists_warn contexts
    rw [hwarn] at hact
    exact (Step.next.inj hact).1 ▸ wrote_of_written rfl rfl
  | brokenNote => cases hact
  | opening env => exact (Step.next.inj hact).1 ▸ wrote_of_written rfl rfl
  | ending env => exact (Step.next.inj hact).1 ▸ wrote_endEnv state piece env
  | nameless => exact (Step.next.inj hact).1 ▸ wrote_of_written rfl rfl
  | left delimiter =>
    cases delimiter with
    | brace => exact (Step.next.inj hact).1 ▸ wrote_of_written rfl rfl
    | bracket =>
      rw [State.act] at hact
      split at hact
      · exact (Step.next.inj hact).1 ▸ wrote_of_written rfl rfl
      · exact (Step.next.inj hact).1 ▸ wrote_of_written rfl rfl
  | right delimiter =>
    rw [hbegins.right_eq]
    rcases close_cases hact with rfl | ⟨frame, outer, rfl⟩
    · exact wrote_of_written rfl rfl
    · exact wrote_closeFrame state _ frame outer rest
  | blanks paragraph =>
    cases paragraph with
    | true => exact (Step.next.inj hact).1 ▸ wrote_of_written rfl rfl
    | false => exact (Step.next.inj hact).1 ▸ wrote_of_written rfl rfl
  | plain => exact (Step.next.inj hact).1 ▸ wrote_of_written rfl rfl

/-- The notes that stand behind a lexeme that stays: those that waited, if what was held ended with
the lexeme, and none otherwise. -/
structure Trailed (state after : State) (piece : Text) (behind : List Text) : Prop where
  notes : ∀ note ∈ behind, IsNote note
  output : after.output = state.output ++ (piece ++ behind.flatten)
  ended : behind ≠ [] → state.hold.isSome = true ∧ after.hold = none ∧ after.stash = []
  waited : behind ≠ [] → state.stash ≠ []
  kept : state.stash = [] → after.stash = []

theorem Trailed.eq_nil {behind : List Text} (h : Trailed state after piece behind)
    (hstash : state.stash = []) : behind = [] :=
  Classical.byContradiction fun hne => h.waited hne hstash

theorem Wrote.trailed (h : Wrote state after piece) (hnotes : ∀ note ∈ state.stash, IsNote note) :
    ∃ behind, Trailed state after piece behind := by
  rcases h with ⟨houtput, hstash⟩ | ⟨houtput, hstash, hhold, hfree⟩
  · refine ⟨[], List.forall_mem_nil _, ?_, fun hne => absurd rfl hne, fun hne => absurd rfl hne,
      hstash.trans⟩
    rw [houtput, List.flatten_nil, List.append_nil]
  · refine ⟨state.stash, hnotes, ?_, fun _ => ⟨hhold, hfree, hstash⟩, id, fun _ => hstash⟩
    rw [houtput, List.append_assoc]

/-- No lexeme but the beginning of an argument and white space leaves notes waiting for one. -/
theorem Sound.closeFrame (h : Sound state text) (hrearm : state.rearm = false) (piece : Text)
    (frame : Frame) (outer : List Frame) (rest : Text) :
    Sound ((state.emit piece).closeFrame frame outer rest) rest := by
  by_cases hhold : (state.emit piece).hold = some (.frame outer.length)
  · rw [State.closeFrame_of_hold hhold]
    split
    · next hfollows => exact ⟨fun _ => rfl, fun _ => .inr hfollows, h.notes⟩
    · exact .of_not_rearm hrearm (List.forall_mem_nil _)
  · rw [State.closeFrame_of_ne hhold]
    exact .of_not_rearm hrearm h.notes

theorem Sound.endEnv (h : Sound state text) (hrearm : state.rearm = false) (piece : Text)
    (env : String) (rest : Text) : Sound ((state.emit piece).endEnv env) rest := by
  rcases (state.emit piece).endEnv_cases env with ⟨_, -, heq⟩ | ⟨-, heq⟩ <;> rw [heq]
  · exact .of_not_rearm hrearm (List.forall_mem_nil _)
  · exact .of_not_rearm hrearm h.notes

/-- What the pass keeps to, it keeps to after a lexeme. -/
theorem Sound.act (h : Sound state (piece ++ rest)) (hbegins : Begins lexeme piece rest)
    (hrearm : state.rearm = true →
      (∃ delimiter, lexeme = .left delimiter) ∨ ∃ paragraph, lexeme = .blanks paragraph)
    (hact : state.act contexts lexeme piece rest = .next after rest) : Sound after rest := by
  -- A further argument is still waited for at opening delimiters and blanks only.
  have hoff (hleft : ∀ delimiter, lexeme ≠ .left delimiter)
      (hblanks : ∀ paragraph, lexeme ≠ .blanks paragraph) : state.rearm = false := by
    cases hr : state.rearm with
    | false => rfl
    | true =>
      rcases hrearm hr with ⟨delimiter, hl⟩ | ⟨paragraph, hb⟩
      · exact absurd hl (hleft delimiter)
      · exact absurd hb (hblanks paragraph)
  cases lexeme with
  | comment => exact (Step.next.inj hact).1 ▸ .of_not_rearm (hoff (by simp) (by simp)) h.notes
  | escape => exact (Step.next.inj hact).1 ▸ .of_not_rearm (hoff (by simp) (by simp)) h.notes
  | verbatim => exact (Step.next.inj hact).1 ▸ .of_not_rearm (hoff (by simp) (by simp)) h.notes
  | command name => exact (Step.next.inj hact).1 ▸ .of_not_rearm (hoff (by simp) (by simp)) h.notes
  | note =>
    have hoff := hoff (by simp) (by simp)
    rw [State.act] at hact
    split at hact
    · obtain ⟨rfl, -⟩ := Step.next.inj hact
      refine .of_not_rearm hoff ?_
      intro note hnote
      rcases List.mem_append.mp hnote with hnote | hnote
      · exact h.notes note hnote
      · rw [List.mem_singleton.mp hnote]
        exact hbegins.isNote
    · obtain ⟨warnings, hwarn⟩ := state.exists_warn contexts
      rw [hwarn] at hact
      exact (Step.next.inj hact).1 ▸ .of_not_rearm hoff h.notes
  | brokenNote => cases hact
  | opening env => exact (Step.next.inj hact).1 ▸ .of_not_rearm (hoff (by simp) (by simp)) h.notes
  | ending env => exact (Step.next.inj hact).1 ▸ h.endEnv (hoff (by simp) (by simp)) piece env rest
  | nameless => exact (Step.next.inj hact).1 ▸ .of_not_rearm (hoff (by simp) (by simp)) h.notes
  | left delimiter =>
    cases delimiter with
    | brace => exact (Step.next.inj hact).1 ▸ .of_not_rearm rfl h.notes
    | bracket =>
      rw [State.act] at hact
      split at hact
      · exact (Step.next.inj hact).1 ▸ .of_not_rearm rfl h.notes
      · exact (Step.next.inj hact).1 ▸ ⟨h.free, fun _ => .inl rfl, h.notes⟩
  | right delimiter =>
    have hoff := hoff (by simp) (by simp)
    rcases close_cases hact with rfl | ⟨frame, outer, rfl⟩
    · exact .of_not_rearm hoff h.notes
    · exact h.closeFrame hoff _ frame outer rest
  | blanks paragraph =>
    cases paragraph with
    | true => exact (Step.next.inj hact).1 ▸ ⟨h.free, fun _ => .inl rfl, h.notes⟩
    | false =>
      refine (Step.next.inj hact).1 ▸ ⟨h.free, fun hr => ?_, h.notes⟩
      obtain ⟨hrun, hrest, -⟩ := hbegins.blanks
      exact (h.follows hr).imp_right (argumentFollows_of_blanks hrun hrest)
  | plain => exact (Step.next.inj hact).1 ▸ .of_not_rearm (hoff (by simp) (by simp)) h.notes

/-! ### The two runs -/

/-- A skeleton of the run over what is written fits a state of the run that writes it: the same
groups and environments are open, and the same command waits for an argument unless none comes. -/
structure Matches (state : State) (text : Text) (skeleton : Skeleton) : Prop where
  frames : skeleton.frames = state.skeleton.frames
  envs : skeleton.envs = state.envs
  pending : skeleton.pending = state.pending ∨ argumentAhead state.hold.isSome text = false

namespace Matches

variable {skeleton : Skeleton}

theorem of_skeleton (state : State) (text : Text) : Matches state text state.skeleton :=
  ⟨rfl, rfl, .inl rfl⟩

theorem congr (h : Matches state text skeleton) (hskeleton : after.skeleton = state.skeleton)
    (hhold : after.hold = state.hold) : Matches after text skeleton where
  frames := h.frames.trans (congrArg Skeleton.frames hskeleton).symm
  envs := h.envs.trans (congrArg Skeleton.envs hskeleton).symm
  pending := by
    rw [hhold]
    exact h.pending.imp_left fun heq => heq.trans (congrArg Skeleton.pending hskeleton).symm

/-- Notes leave the skeletons as they are where no argument comes. -/
theorem afterNotes (h : Matches state text skeleton) {notes : List Text}
    (hpending : notes ≠ [] → state.pending = none ∨ argumentAhead state.hold.isSome text = false) :
    Matches state text (skeleton.afterNotes notes) where
  frames := (skeleton.afterNotes_frames notes).trans h.frames
  envs := (skeleton.afterNotes_envs notes).trans h.envs
  pending := by
    by_cases hnotes : notes = []
    · rw [Skeleton.afterNotes, if_pos hnotes]
      exact h.pending
    · rw [Skeleton.afterNotes, if_neg hnotes]
      exact (hpending hnotes).imp_left Eq.symm

end Matches

/-- Only the beginning of an argument depends on the command that waits for one. -/
theorem Skeleton.act_congr {skeleton skeleton' : Skeleton} (hframes : skeleton.frames = skeleton'.frames)
    (henvs : skeleton.envs = skeleton'.envs) (hleft : ∀ delimiter, lexeme ≠ .left delimiter)
    (hcomment : lexeme ≠ .comment) (hblanks : ∀ paragraph, lexeme ≠ .blanks paragraph)
    (closes : Bool) : skeleton.act lexeme closes = skeleton'.act lexeme closes := by
  obtain ⟨frames, envs, pending⟩ := skeleton
  obtain ⟨frames', envs', pending'⟩ := skeleton'
  obtain rfl : frames = frames' := hframes
  obtain rfl : envs = envs' := henvs
  cases lexeme with
  | comment => exact absurd rfl hcomment
  | left delimiter => exact absurd rfl (hleft delimiter)
  | blanks paragraph => exact absurd rfl (hblanks paragraph)
  | _ => rfl

/-- A lexeme keeps the two runs together. -/
theorem Matches.act {skeleton : Skeleton} (h : Matches state (piece ++ rest) skeleton)
    (hbegins : Begins lexeme piece rest) (hblanks : ∀ paragraph, lexeme ≠ .blanks paragraph)
    (hact : state.act contexts lexeme piece rest = .next after rest) :
    ∃ next, skeleton.act lexeme (bracketCloses rest) = some next ∧ Matches after rest next := by
  have hstate : state.skeleton.act lexeme (bracketCloses rest) = some after.skeleton := by
    rcases act_skeleton contexts state lexeme piece rest with ⟨after', hact', hskeleton⟩ | ⟨⟨_, hfail⟩, -⟩
    · obtain ⟨rfl, -⟩ := Step.next.inj (hact.symm.trans hact')
      exact hskeleton
    · cases hact.symm.trans hfail
  by_cases hcomment : lexeme = .comment
  · subst hcomment
    obtain ⟨rfl, -⟩ := Step.next.inj hact
    refine ⟨skeleton, rfl, h.frames, h.envs, h.pending.imp_right fun hahead => ?_⟩
    rwa [hbegins.argumentAhead] at hahead
  by_cases hleft : ∃ delimiter, lexeme = .left delimiter
  · obtain ⟨delimiter, rfl⟩ := hleft
    have hpending : skeleton.pending = state.pending := by
      refine h.pending.resolve_right fun hahead => ?_
      rw [hbegins.argumentAhead] at hahead
      cases hahead
    obtain rfl : skeleton = state.skeleton := by
      obtain ⟨frames, envs, pending⟩ := skeleton
      rw [State.skeleton, Skeleton.mk.injEq]
      exact ⟨h.frames, h.envs, hpending⟩
    exact ⟨after.skeleton, hstate, .of_skeleton after rest⟩
  · refine ⟨after.skeleton, ?_, .of_skeleton after rest⟩
    rw [← hstate]
    exact Skeleton.act_congr h.frames h.envs (fun delimiter heq => hleft ⟨delimiter, heq⟩) hcomment
      hblanks _

/-- White space that joins the white space before it keeps the two runs together: the two make a
paragraph break that neither is only where no command waits for an argument. -/
theorem Matches.blanks {skeleton : Skeleton} {blanks : Text} {paragraph : Bool}
    (h : Matches state (piece ++ rest) (skeleton.pass blanks))
    (hbegins : Begins (.blanks paragraph) piece rest)
    (hact : state.act contexts (.blanks paragraph) piece rest = .next after rest)
    (hlag : blanks = [] ∨ state.pending = none ∨ Stops isTexBlank (piece ++ rest)) :
    Matches after rest (skeleton.pass (blanks ++ piece)) := by
  obtain ⟨hpiece, -, hparagraph⟩ := hbegins.blanks
  obtain ⟨c, tail, hcons, -⟩ := hbegins.eq_cons
  have hahead (held : Bool) := hbegins.argumentAhead held
  obtain ⟨rfl, -⟩ := Step.next.inj hact
  have hcount : (blanks ++ piece).count '\n' = blanks.count '\n' + piece.count '\n' :=
    List.count_append
  cases paragraph with
  | true =>
    have hbreak : 2 ≤ piece.count '\n' := of_decide_eq_true hparagraph.symm
    have hpass : skeleton.pass (blanks ++ piece) = skeleton.awaiting none := by
      rw [Skeleton.pass, hcount, if_pos (by omega)]
    rw [hpass]
    exact ⟨(skeleton.pass_frames blanks).symm.trans h.frames,
      (skeleton.pass_envs blanks).symm.trans h.envs, .inl rfl⟩
  | false =>
    have hbreak : ¬ 2 ≤ piece.count '\n' := of_decide_eq_false hparagraph.symm
    refine ⟨?_, ?_, ?_⟩
    · rw [Skeleton.pass_frames, ← skeleton.pass_frames blanks]
      exact h.frames
    · rw [Skeleton.pass_envs, ← skeleton.pass_envs blanks]
      exact h.envs
    rcases h.pending with hpending | hnone
    · by_cases hjoin : 2 ≤ (blanks ++ piece).count '\n'
      · refine .inl ?_
        rw [Skeleton.pass, if_pos hjoin]
        rcases hlag with rfl | hstate | hstops
        · exact absurd hjoin hbreak
        · exact hstate.symm
        · rw [hcons, List.cons_append, stops_cons,
            hpiece c (by rw [hcons]; exact List.mem_cons_self)] at hstops
          cases hstops
      · refine .inl ?_
        rw [Skeleton.pass, if_neg (by omega)] at hpending
        rw [Skeleton.pass, if_neg hjoin]
        exact hpending
    · rw [hahead] at hnone
      exact .inr hnone

/-- The text is what the pass goes on to write from the state on, to the state at the end.  A run
over it, and over white space that was written before it, ends well if it starts with a skeleton
that fits. -/
structure Continues (contexts : Contexts) (final state : State) (source text : Text) : Prop where
  output : final.flush.output = state.output ++ text
  closes : ∀ depth, Closes depth source ↔ Closes depth text
  stops : state.EndsInWord → Stops extendsWord source → Stops extendsWord text
  outcome : ∀ (skeleton : Skeleton) (blanks : Text), (∀ c ∈ blanks, isTexBlank c = true) →
    (blanks = [] ∨ state.pending = none ∨ Stops isTexBlank source) →
    Matches state source (skeleton.pass blanks) →
    skeleton.Outcome contexts state source (blanks ++ text)

namespace Continues

theorem nil (hframes : final.frames = []) (hsound : Sound final []) :
    Continues contexts final final [] final.stash.flatten where
  output := State.output_flush final
  closes depth := by rw [← closes_notes hsound.notes, List.append_nil]
  stops _ h := by
    rw [← List.append_nil final.stash.flatten]
    exact stops_notes hsound.notes (by decide) h
  outcome skeleton blanks hblanks _ hmatches := by
    have hplace : Placeable contexts final [] := by
      refine ⟨?_, ?_⟩
      · intro frame hframe
        rw [hframes] at hframe
        cases hframe
      · intro depth env hdepth _ later rest hlater
        cases hlater
        have hlt := (List.getElem?_eq_some_iff.mp hdepth).1
        rwa [List.length_reverse] at hlt
    have henvs : skeleton.envs = final.envs := (skeleton.pass_envs blanks).symm.trans hmatches.envs
    have hframes' : (skeleton.pass blanks).frames = [] := by
      rw [hmatches.frames, State.skeleton, hframes, List.map_nil]
    rw [← List.append_nil final.stash.flatten]
    refine .blanks hblanks ?_ (stops_notes hsound.notes (by decide) (stops_nil _)) henvs
    refine .notes hsound.notes (.nil ?_ ?_) hmatches.envs fun _ => ⟨hplace, hmatches.frames⟩
    · rw [Skeleton.afterNotes_frames, hframes']
    · rw [Skeleton.afterNotes_envs, hmatches.envs]

/-- A note that is taken out. -/
theorem lift (hat : OrderlyAt contexts state (piece ++ rest)) (hbegins : Begins .note piece rest)
    (hhold : state.hold.isSome = true)
    (hreaches : Reaches contexts state (piece ++ rest) ((state.lift piece).awaiting none) rest)
    (h : Continues contexts final ((state.lift piece).awaiting none) rest text) :
    Continues contexts final state (piece ++ rest) text where
  output := h.output
  closes depth := (hbegins.closes_note depth).trans (h.closes depth)
  stops hword _ := h.stops hword ((hat.apart piece rest rfl hbegins hhold).1 hword)
  outcome skeleton blanks hblanks _ hmatches := by
    refine (h.outcome skeleton blanks hblanks (.inr (.inl rfl)) ?_).mono hreaches
    refine ⟨hmatches.frames, hmatches.envs, ?_⟩
    change _ ∨ argumentAhead state.hold.isSome rest = false
    rw [hhold]
    rcases hmatches.pending with hpending | hahead
    · rw [hpending]
      cases hstate : state.pending with
      | none => exact .inl rfl
      | some name =>
        exact .inr ((hat.apart piece rest rfl hbegins hhold).2 (by rw [hstate]; rfl))
    · rw [hbegins.argumentAhead, hhold] at hahead
      exact .inr hahead

/-- White space, which joins the white space before it. -/
theorem blanks {paragraph : Bool} (hbegins : Begins (.blanks paragraph) piece rest)
    (hact : state.act contexts (.blanks paragraph) piece rest = .next after rest)
    (hreaches : Reaches contexts state (piece ++ rest) after rest)
    (h : Continues contexts final after rest text) :
    Continues contexts final state (piece ++ rest) (piece ++ text) := by
  obtain ⟨hpiece, hrest, hparagraph⟩ := hbegins.blanks
  obtain ⟨c, tail, hcons, -⟩ := hbegins.eq_cons
  have hc : isTexBlank c = true := hpiece c (by rw [hcons]; exact List.mem_cons_self)
  have houtput : after.output = state.output ++ piece := by
    rw [← State.output_emit]
    obtain ⟨rfl, -⟩ := Step.next.inj hact
    split <;> rfl
  refine ⟨?_, ?_, ?_, ?_⟩
  · rw [h.output, houtput, List.append_assoc]
  · intro depth
    rw [closes_blanks hpiece, closes_blanks hpiece, h.closes]
  · intro _ hstops
    rw [hcons] at hstops ⊢
    exact stops_cons.mpr (stops_cons.mp hstops)
  · intro skeleton blanks hblanks hlag hmatches
    rw [← List.append_assoc]
    refine (h.outcome skeleton (blanks ++ piece) ?_ (.inr (.inr hrest)) ?_).mono hreaches
    · intro d hd
      exact (List.mem_append.mp hd).elim (hblanks d) (hpiece d)
    · exact hmatches.blanks hbegins hact hlag

end Continues

/-- The lexeme is read again in what is written, and an argument closes behind it as it does in
what is read. -/
structure ReadAgain (lexeme : Lexeme) (piece rest rest' : Text) : Prop where
  begins : Begins lexeme piece rest'
  closes : ∀ depth, Closes depth (piece ++ rest) ↔ Closes depth (piece ++ rest')
  closesBehind : ∀ depth, Closes depth rest ↔ Closes depth rest'

theorem Begins.readAgain (h : Begins lexeme piece rest) (hact : state.act contexts lexeme piece rest = .next after rest)
    (hblanks : ∀ paragraph, lexeme ≠ .blanks paragraph)
    (hcontinues : Continues contexts final after rest text) {notes : List Text}
    (hnotes : ∀ note ∈ notes, IsNote note)
    (hcomplete : lexeme.Shut piece ∨ rest = [] ∧ notes.flatten ++ text = []) :
    ReadAgain lexeme piece rest (notes.flatten ++ text) := by
  rcases hcomplete with hshut | ⟨hrest, htext⟩
  · have hbehind (depth : Nat) : Closes depth rest ↔ Closes depth (notes.flatten ++ text) := by
      rw [closes_notes hnotes, hcontinues.closes]
    have hstops : lexeme.Stops piece (notes.flatten ++ text) := by
      cases lexeme with
      | command name =>
        cases h.lexes ⟨by simp, by simp, by simp⟩ with
        | command hname hrest =>
          have hword : after.EndsInWord := by
            obtain ⟨rfl, -⟩ := Step.next.inj hact
            exact ⟨name, hname, rfl⟩
          exact .inr (stops_notes hnotes (by decide) (hcontinues.stops hword hrest))
        | starred hname => exact .inl (@List.getLast?_concat _ ('\\' :: name.toList) '*')
      | blanks paragraph => exact absurd rfl (hblanks paragraph)
      | _ => trivial
    exact ⟨h.replace hshut hstops, h.closes_congr hshut hstops hbehind, hbehind⟩
  · rw [htext, ← hrest]
    exact ⟨h, fun _ => .rfl, fun _ => .rfl⟩

/-- A lexeme that is cut off by the end of the text is also the last one that is written. -/
theorem Settled.shut_or_last {c : Char} {tail : Text} {before behind : List Text}
    (hbefore : Settled state c (tail ++ rest) before) (hpiece : piece = c :: tail)
    (hat : OrderlyAt contexts state (piece ++ rest)) (hbegins : Begins lexeme piece rest)
    (hbehind : Trailed (state.settle c) after piece behind) (hend : rest = [] → final = after)
    (h : Continues contexts final after rest text) :
    lexeme.Shut piece ∨ rest = [] ∧ behind.flatten ++ text = [] := by
  rcases hat.complete lexeme piece rest rfl hbegins with hshut | ⟨hrest, hwaits⟩
  · exact .inl hshut
  rcases hbefore.stash hwaits with hnil | hc
  · have hflush := h.output
    rw [hend hrest, State.output_flush, hbehind.kept hnil] at hflush
    rw [hbehind.eq_nil hnil, List.flatten_nil, List.nil_append]
    exact .inr ⟨hrest, (List.append_cancel_left hflush).symm⟩
  · left
    rcases hbegins.of_first hpiece hc with ⟨delimiter, rfl⟩ | ⟨paragraph, rfl⟩ <;> trivial

/-- Notes behind a lexeme that stays part no command from its argument. -/
theorem Settled.pending_behind {c : Char} {tail : Text} {before behind : List Text}
    (hbefore : Settled state c (tail ++ rest) before) (hcons : piece ++ rest = c :: (tail ++ rest))
    (hsound : Sound state (piece ++ rest)) (hat : OrderlyAt contexts state (piece ++ rest))
    (hstep : step contexts state c (tail ++ rest) = .next after rest)
    (hbehind : Trailed (state.settle c) after piece behind) (hne : behind ≠ []) :
    after.pending = none ∨ argumentAhead after.hold.isSome rest = false := by
  obtain ⟨hhold, hfree, hnil⟩ := hbehind.ended hne
  have hrearm : state.rearm = false := hsound.rearm_eq_false (hbefore.hold ▸ hhold)
  have hwaits : state.stash ≠ [] := hbefore.same hrearm ▸ hbehind.waited hne
  cases hpending : after.pending with
  | none => exact .inl rfl
  | some name =>
    rw [hfree]
    exact .inr (hat.returned c (tail ++ rest) after rest hcons hstep hrearm hwaits hnil
      (by rw [hpending]; rfl))

/-- A lexeme that stays, between the notes that are put back before and behind it. -/
theorem Continues.write {c : Char} {tail : Text} (hpiece : piece = c :: tail)
    (hsound : Sound state (piece ++ rest)) (hat : OrderlyAt contexts state (piece ++ rest))
    (hafter : OrderlyAt contexts after rest) (hbegins : Begins lexeme piece rest)
    (hblanks : ∀ paragraph, lexeme ≠ .blanks paragraph) (hstays : lexeme = .note → state.hold = none)
    (hstep : step contexts state c (tail ++ rest) = .next after rest)
    (hend : rest = [] → final = after) (h : Continues contexts final after rest text) :
    ∃ text', Continues contexts final state (piece ++ rest) text' := by
  have hcons : piece ++ rest = c :: (tail ++ rest) := by rw [hpiece, List.cons_append]
  have hreaches : Reaches contexts state (piece ++ rest) after rest := by
    rw [hcons]
    exact .step hstep (.refl after rest)
  have hact : (state.settle c).act contexts lexeme piece rest = .next after rest := by
    obtain ⟨d, t, htext, -, hstep'⟩ := hbegins.step_eq contexts state
    obtain ⟨rfl, rfl⟩ := List.cons.inj (hcons.symm.trans htext)
    exact hstep'.symm.trans hstep
  -- The notes that an ended argument let go stand before the lexeme, those that it lets go itself
  -- behind it.
  obtain ⟨before, hbefore⟩ := (hcons ▸ hsound).settled
  obtain ⟨behind, hbehind⟩ :=
    (act_wrote hbegins hact fun hnote => hbefore.hold.trans (hstays hnote)).trailed
      hbefore.sound.notes
  have hcomplete := hbefore.shut_or_last hpiece hat hbegins hbehind hend h
  have hagain := hbegins.readAgain hact hblanks h hbehind.notes hcomplete
  refine ⟨before.flatten ++ (piece ++ (behind.flatten ++ text)), ?_, ?_, ?_, ?_⟩
  · rw [h.output, hbehind.output, hbefore.output]
    simp only [List.append_assoc]
  · intro depth
    rw [closes_notes hbefore.notes, hagain.closes]
  · intro _ hstops
    refine stops_notes hbefore.notes (by decide) ?_
    rw [hcons, stops_cons] at hstops
    rw [hpiece, List.cons_append, stops_cons]
    exact hstops
  -- The output is read again in its order: the blanks, the notes before the lexeme, the lexeme, the
  -- notes behind it, and what the rest has written.
  · intro skeleton blanks hrun _ hmatches
    have henvs : skeleton.envs = state.envs := (skeleton.pass_envs blanks).symm.trans hmatches.envs
    have hnotBlank : isTexBlank c = false := by
      cases hc : isTexBlank c with
      | false => rfl
      | true =>
        obtain ⟨paragraph, heq⟩ := hbegins.of_blank hpiece hc
        exact absurd heq (hblanks paragraph)
    have hstops : Stops isTexBlank (before.flatten ++ (piece ++ (behind.flatten ++ text))) := by
      refine stops_notes hbefore.notes (by decide) ?_
      rw [hpiece, List.cons_append, stops_cons]
      exact hnotBlank
    have hmatches' := (@Matches.afterNotes _ _ _ hmatches before fun hne =>
      .inl (hbefore.free hne).2).congr hbefore.skeleton hbefore.hold
    obtain ⟨next, hnext, hmatchesNext⟩ := hmatches'.act hbegins hblanks hact
    refine .blanks hrun ?_ hstops henvs
    refine .notes hbefore.notes ?_ hmatches.envs fun hne =>
      ⟨hat.nested (hbefore.free hne).1, hmatches.frames⟩
    refine .step hagain.begins (bracketCloses_eq hagain.closesBehind ▸ hnext) ?_ ?_ ?_
    · refine Skeleton.Outcome.mono ?_ hreaches
      refine .notes hbehind.notes ?_ hmatchesNext.envs fun hne =>
        ⟨hafter.nested (hbehind.ended hne).2.1, hmatchesNext.frames⟩
      refine h.outcome _ [] (by simp) (.inl rfl) ?_
      exact hmatchesNext.afterNotes (hbefore.pending_behind hcons hsound hat hstep hbehind)
    · rw [Skeleton.afterNotes_envs]
      exact hmatches.envs
    · intro hnote
      refine ⟨hat.nested (hstays hnote), ?_⟩
      rw [Skeleton.afterNotes_frames]
      exact hmatches.frames

/-! ### Runs -/

/-- What a step has read. -/
theorem exists_begins_of_step {c : Char} {tail : Text}
    (h : step contexts state c tail = .next after rest) :
    ∃ lexeme piece, tail = piece ++ rest ∧ Begins lexeme (c :: piece) rest ∧
      (state.settle c).act contexts lexeme (c :: piece) rest = .next after rest := by
  have hbegins := begins_read c tail
  have htext := upTo_append ((read_suffix c tail).trans (List.suffix_cons c tail))
  rw [step_eq] at h
  obtain rfl : (read c tail).2 = rest := by
    rcases act_skeleton contexts (state.settle c) (read c tail).1
      (upTo (c :: tail) (read c tail).2) (read c tail).2 with ⟨_, hact, -⟩ | ⟨⟨_, hact⟩, -⟩
    · exact (Step.next.inj (hact.symm.trans h)).2
    · cases hact.symm.trans h
  obtain ⟨d, piece, hpiece, -⟩ := hbegins.eq_cons
  rw [hpiece] at htext hbegins h
  obtain ⟨rfl, htail⟩ := List.cons.inj htext
  exact ⟨_, piece, htail.symm, hbegins, h⟩

/-- What the pass keeps to, it keeps to after a step. -/
theorem Sound.step {c : Char} {tail : Text} (h : Sound state (c :: tail))
    (hstep : Relocation.step contexts state c tail = .next after rest) : Sound after rest := by
  obtain ⟨flushed, hsettled⟩ := h.settled
  obtain ⟨lexeme, piece, rfl, hbegins, hact⟩ := exists_begins_of_step hstep
  exact @Sound.act _ _ _ _ _ _ hsettled.sound hbegins
    (fun hrearm => hbegins.of_first rfl (hsettled.rearm hrearm)) hact

theorem Reaches.sound (h : Reaches contexts state text after rest) (hsound : Sound state text) :
    Sound after rest := by
  induction h with
  | refl => exact hsound
  | step hstep _ ih => exact ih (hsound.step hstep)

/-- **What the pass writes on an orderly text is read as the text was**, but for the notes. -/
theorem Reaches.continues (h : Reaches contexts state text final []) (hframes : final.frames = [])
    (hsound : Sound state text) (horderly : Orderly contexts state text) :
    ∃ written, Continues contexts final state text written := by
  generalize hnil : ([] : Text) = rest at h
  induction h with
  | refl =>
    subst hnil
    exact ⟨_, .nil hframes hsound⟩
  | @step state mid final c tail left rest hstep hreaches ih =>
    obtain ⟨lexeme, piece, rfl, hbegins, hact⟩ := exists_begins_of_step hstep
    have hone : Reaches contexts state (c :: (piece ++ left)) mid left := .step hstep (.refl _ _)
    obtain ⟨written, hwritten⟩ :=
      ih hframes (hsound.step hstep) (horderly.of_reaches hone) hnil
    by_cases hblanks : ∃ paragraph, lexeme = .blanks paragraph
    · obtain ⟨paragraph, rfl⟩ := hblanks
      have hc : isTexBlank c = true := hbegins.blanks.1 c List.mem_cons_self
      rw [State.settle_of_blank hc] at hact
      exact ⟨_, .blanks hbegins hact hone hwritten⟩
    by_cases hlift : lexeme = .note ∧ state.hold.isSome = true
    · obtain ⟨rfl, hhold⟩ := hlift
      have hrearm : state.rearm = false := hsound.rearm_eq_false hhold
      rw [State.settle_of_not_rearm hrearm, State.act, if_pos hhold] at hact
      obtain ⟨rfl, -⟩ := Step.next.inj hact
      exact ⟨written, .lift (horderly _ _ (.refl _ _)) hbegins hhold hone hwritten⟩
    · refine Continues.write rfl hsound (horderly _ _ (.refl _ _)) (horderly _ _ hone) hbegins
        (fun paragraph heq => hblanks ⟨paragraph, heq⟩) (fun hnote => ?_) hstep ?_ hwritten
      · exact Option.not_isSome_iff_eq_none.mp fun hhold => hlift ⟨hnote, hhold⟩
      · rintro rfl
        cases hreaches
        rfl

/-! ### Orderly lexemes -/

/-- A text is orderly if it is so at its first lexeme and behind it. -/
theorem Orderly.of_step {c : Char} {tail : Text} (hbegins : Begins lexeme (c :: tail) rest)
    (htext : text = c :: tail ++ rest)
    (hstep : (state.settle c).act contexts lexeme (c :: tail) rest = .next after rest)
    (hnested : state.hold = none → state.frames = [] ∧ state.envs = [])
    (hshut : lexeme.Shut (c :: tail))
    (hapart : lexeme = .note → state.EndsInWord → Stops extendsWord rest)
    (hlifted : lexeme = .note → state.pending.isSome = true → argumentAhead true rest = false)
    (hreturned : state.stash ≠ [] → after.stash = [] → argumentAhead false rest = false)
    (h : Orderly contexts after rest) : Orderly contexts state text := by
  subst htext
  have hnext : step contexts state c (tail ++ rest) = .next after rest := by
    obtain ⟨d, t, htext, -, hstep'⟩ := hbegins.step_eq contexts state
    obtain ⟨rfl, rfl⟩ := List.cons.inj htext
    exact hstep'.trans hstep
  intro later left hreaches
  cases hreaches with
  | refl =>
    refine ⟨?_, ?_, ?_, ?_⟩
    · intro hhold
      obtain ⟨hframes, henvs⟩ := hnested hhold
      refine ⟨?_, ?_⟩
      · rw [hframes]
        simp
      · rw [henvs]
        simp
    · intro lexeme' piece rest' htext hbegins'
      obtain ⟨rfl, rfl, rfl⟩ := hbegins.unique hbegins' htext
      exact .inl hshut
    · intro piece rest' htext hbegins' _
      obtain ⟨rfl, rfl, rfl⟩ := hbegins.unique hbegins' htext
      exact ⟨hapart rfl, hlifted rfl⟩
    · intro d t after' rest' htext hstep' _ hwaits hnil _
      obtain ⟨rfl, rfl⟩ := List.cons.inj htext
      obtain ⟨rfl, rfl⟩ := Step.next.inj (hnext.symm.trans hstep')
      exact hreturned hwaits hnil
  | step hstep' hreaches =>
    obtain ⟨rfl, rfl⟩ := Step.next.inj (hnext.symm.trans hstep')
    exact h later left hreaches

theorem orderly_nil (hframes : state.frames = []) (henvs : state.envs = []) :
    Orderly contexts state [] := by
  intro later rest hreaches
  cases hreaches
  refine ⟨fun _ => ⟨?_, ?_⟩, ?_, ?_, ?_⟩
  · rw [hframes]
    simp
  · rw [henvs]
    simp
  · intro lexeme piece rest htext hbegins
    exact absurd htext.symm hbegins.ne_nil
  · intro piece rest htext hbegins
    exact absurd htext.symm hbegins.ne_nil
  · simp

theorem lexes_noteText {key body : Text} (hkey : ∀ c ∈ key, Inert c) (hbody : ∀ c ∈ body, Inert c) :
    Lexes .note (noteText key body) rest := by
  refine .note fun rest => ?_
  rw [List.cons_append, List.append_assoc, List.cons_append, List.cons_append, List.append_assoc]
  exact noteEnd?_append hkey hbody rest

theorem lexes_beginText {name : String} (hname : EnvironmentName name) :
    Lexes (.opening name) (beginText name) rest := by
  refine .opening (fun rest => ?_) (fun rest => ?_)
  · rw [List.cons_append, List.append_assoc]
    exact environmentName?_append hname rest
  · rw [List.cons_append, List.append_assoc]
    exact Verbatim.begins?_environment hname.inert hname.verbatim rest

theorem lexes_endText {name : String} (hname : EnvironmentName name) :
    Lexes (.ending name) (endText name) rest := by
  refine .ending fun rest => ?_
  rw [List.cons_append, List.append_assoc]
  exact environmentName?_append hname rest

/-! ### The relocated text -/

/-- A caption with a note in it. -/
def captioned : Text :=
  '\\' :: ("caption".toList ++ '{' :: (noteText ['k'] ['b'] ++ ['}']))

/-- The caption with the note behind it. -/
def captionedOut : Text :=
  '\\' :: ("caption".toList ++ '{' :: '}' :: noteText ['k'] ['b'])

theorem relocate_captioned : (relocate .standard captioned).result = .ok captionedOut := by
  have hname : CommandName "caption" := by decide
  have hkey : ∀ c ∈ ['k'], Inert c := by decide
  have hbody : ∀ c ∈ ['b'], Inert c := by decide
  have hcommand := (@Reaches.refl .standard .start captioned).reads
    (Lexes.command hname (stops_cons.mpr (by decide))).begins rfl rfl
  have hleft := hcommand.reads (@Lexes.left .brace (noteText ['k'] ['b'] ++ ['}'])).begins rfl rfl
  have hnote := hleft.reads (lexes_noteText hkey hbody).begins rfl rfl
  have hright := hnote.reads (@Lexes.right .brace []).begins rfl rfl
  exact (relocate_eq_ok_iff _ _).mpr ⟨_, hright, rfl, rfl⟩

theorem orderly_captioned : Orderly .standard .start captioned := by
  have hname : CommandName "caption" := by decide
  have hkey : ∀ c ∈ ['k'], Inert c := by decide
  have hbody : ∀ c ∈ ['b'], Inert c := by decide
  refine .of_step (Lexes.command hname (stops_cons.mpr (by decide))).begins rfl rfl
    (fun _ => ⟨rfl, rfl⟩) trivial (by simp) (by simp) (fun h => absurd rfl h) ?_
  refine .of_step (@Lexes.left .brace (noteText ['k'] ['b'] ++ ['}'])).begins rfl rfl
    (fun _ => ⟨rfl, rfl⟩) trivial (by simp) (by simp) (fun h => absurd rfl h) ?_
  refine .of_step (lexes_noteText hkey hbody).begins rfl rfl (fun h => by cases h) trivial
    (fun _ _ => stops_cons.mpr (by decide)) (fun _ h => by cases h) (fun h => absurd rfl h) ?_
  refine .of_step (@Lexes.right .brace []).begins rfl rfl (fun h => by cases h) trivial (by simp) (by simp)
    (fun _ _ => ?_) (orderly_nil rfl rfl)
  rw [argumentAhead]

/-- **The relocated text is safe**, if the text is orderly: a further run of the pass over it meets
no brace that closes no group, ends with no group open, and finds every note where one can
stand. -/
theorem relocate_safe {out : Text} (h : (relocate contexts text).result = .ok out)
    (horderly : Orderly contexts .start text) : Safe contexts out := by
  obtain ⟨final, hreaches, hframes, rfl⟩ := (relocate_eq_ok_iff text out).mp h
  obtain ⟨written, hwritten⟩ := hreaches.continues hframes (sound_start text) horderly
  have hout : final.flush.output = written := hwritten.output
  rw [hout]
  exact (hwritten.outcome Skeleton.start [] (by simp) (.inl rfl) (.of_skeleton .start text)).safe

theorem relocate_safe_captioned :
    (relocate .standard captioned).result = .ok captionedOut ∧
      Orderly .standard .start captioned ∧ Safe .standard captionedOut :=
  ⟨relocate_captioned, orderly_captioned, relocate_safe relocate_captioned orderly_captioned⟩

/-- A table that ends inside a caption. -/
def crossing : Text :=
  beginText "tabular" ++ ('\\' :: ("caption".toList ++ '{' ::
    (endText "tabular" ++ (noteText ['k'] ['b'] ++ ['}']))))

theorem environmentName_tabular : EnvironmentName "tabular" :=
  ⟨by decide, by decide, fun env => by cases env <;> decide⟩

/-- The pass comes to the note with the caption around it and holds nothing; so the note stays
where it is. -/
theorem crossing_reaches :
    (∃ state, Reaches .standard .start crossing state (noteText ['k'] ['b'] ++ ['}']) ∧
      state.frames = [⟨.brace, some "caption", 23⟩]) ∧
    (relocate .standard crossing).result = .ok crossing := by
  have hname : CommandName "caption" := by decide
  have hkey : ∀ c ∈ ['k'], Inert c := by decide
  have hbody : ∀ c ∈ ['b'], Inert c := by decide
  have hbegin := (@Reaches.refl .standard .start crossing).reads
    (lexes_beginText environmentName_tabular).begins rfl rfl
  have hcommand :=
    hbegin.reads (Lexes.command hname (stops_cons.mpr (by decide))).begins rfl rfl
  have hleft := hcommand.reads (@Lexes.left .brace _).begins rfl rfl
  have hending := hleft.reads (lexes_endText environmentName_tabular).begins rfl rfl
  have hnote := hending.reads (lexes_noteText hkey hbody).begins rfl rfl
  have hright := hnote.reads (@Lexes.right .brace []).begins rfl rfl
  exact ⟨⟨_, hending, rfl⟩, (relocate_eq_ok_iff _ _).mpr ⟨_, hright, rfl, rfl⟩⟩

theorem not_safe_crossing : ¬ Safe .standard crossing := by
  intro hsafe
  obtain ⟨⟨state, hreaches, hframes⟩, -⟩ := crossing_reaches
  have hkey : ∀ c ∈ ['k'], Inert c := by decide
  have hbody : ∀ c ∈ ['b'], Inert c := by decide
  have hnote := (@lexes_noteText ['}'] _ _ hkey hbody).begins
  have hplace := hsafe.placed state '\\' _ hreaches (congrArg Prod.fst (hnote.read_eq rfl))
  refine hplace.groups ⟨.brace, some "caption", 23⟩ ?_ "caption" rfl (by decide)
  rw [hframes]
  exact List.mem_cons_self

/-- **Not every relocated text is safe**: the pass holds one context at a time, and forgets the one
that opens inside it and outlives it. -/
theorem not_relocate_safe : ¬ ∀ (contexts : Contexts) (text out : Text),
    (relocate contexts text).result = .ok out → Safe contexts out :=
  fun h => not_safe_crossing (h .standard crossing crossing crossing_reaches.2)

end Marginalia.Relocation
