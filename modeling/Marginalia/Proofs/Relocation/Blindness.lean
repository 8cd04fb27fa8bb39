import Marginalia.Proofs.Relocation.Refilled

/-! # The pass does not look into notes

Two runs over texts that differ only in what their notes say keep together (`Alike`): the same groups
and environments are open, the same is held, and as many notes wait.  What a lexeme does to the notes
that wait is a matter of these (`State.release`), so each run writes the same text around its own notes
(`Reaches.template`).

So neither whether the pass accepts a text nor where it puts a note depends on what the notes say
(`relocate_refill`).
-/
namespace Marginalia.Relocation

open Text Latex

variable {contexts : Contexts} {state state' after after' final : State} {lexeme : Lexeme}
  {piece piece' rest rest' text text' : Text}

/-! ### States that are alike -/

/-- The states agree in all that the pass goes by. -/
structure Alike (state state' : State) : Prop where
  skeleton : state.skeleton = state'.skeleton
  hold : state.hold = state'.hold
  rearm : state.rearm = state'.rearm
  waiting : state.stash.length = state'.stash.length

namespace Alike

theorem refl (state : State) : Alike state state :=
  ⟨rfl, rfl, rfl, rfl⟩

theorem frames_length (h : Alike state state') : state.frames.length = state'.frames.length := by
  have hframes := congrArg (fun skeleton : Skeleton => skeleton.frames.length) h.skeleton
  simpa [State.skeleton] using hframes

theorem envs (h : Alike state state') : state.envs = state'.envs :=
  congrArg Skeleton.envs h.skeleton

theorem pending (h : Alike state state') : state.pending = state'.pending :=
  congrArg Skeleton.pending h.skeleton

theorem emit (h : Alike state state') (piece piece' : Text) :
    Alike (state.emit piece) (state'.emit piece') :=
  ⟨h.skeleton, h.hold, h.rearm, h.waiting⟩

theorem awaiting (h : Alike state state') (pending : Option String) :
    Alike (state.awaiting pending) (state'.awaiting pending) :=
  ⟨congrArg (·.awaiting pending) h.skeleton, h.hold, h.rearm, h.waiting⟩

theorem lift (h : Alike state state') (note note' : Text) :
    Alike (state.lift note) (state'.lift note') := by
  refine ⟨h.skeleton, h.hold, h.rearm, ?_⟩
  simp only [State.lift, List.length_append, h.waiting, List.length_singleton]

theorem warn (h : Alike state state') (contexts : Contexts) :
    Alike (state.warn contexts) (state'.warn contexts) := by
  obtain ⟨warnings, hwarn⟩ := state.exists_warn contexts
  obtain ⟨warnings', hwarn'⟩ := state'.exists_warn contexts
  rw [hwarn, hwarn']
  exact ⟨h.skeleton, h.hold, h.rearm, h.waiting⟩

theorem flush (h : Alike state state') : Alike state.flush state'.flush :=
  ⟨h.skeleton, h.hold, h.rearm, rfl⟩

theorem settle (h : Alike state state') (c : Char) :
    Alike (state.settle c) (state'.settle c) := by
  unfold State.settle
  rw [← h.rearm]
  split
  · exact { h.flush with rearm := rfl }
  · exact h

/-- Before a lexeme all states that are alike stay as they are, or all write the notes that wait. -/
theorem settle_cases (state : State) (c : Char) :
    (∀ state', Alike state state' → state'.settle c = state') ∨
      ∀ state', Alike state state' → state'.settle c = { state'.flush with rearm := false } := by
  by_cases hends : (state.rearm && !(c = '\x7b' || c = '[' || isTexBlank c)) = true
  · right
    intro state' h
    unfold State.settle
    rw [← h.rearm, if_pos hends]
  · left
    intro state' h
    unfold State.settle
    rw [← h.rearm, if_neg hends]

theorem openFrame (h : Alike state state') (delimiter : Delimiter) :
    Alike (state.openFrame contexts delimiter) (state'.openFrame contexts delimiter) := by
  refine ⟨congrArg (·.openFrame delimiter) h.skeleton, ?_, rfl, h.waiting⟩
  simp only [State.openFrame, h.hold, h.rearm, h.pending, h.frames_length]

theorem beginEnv (h : Alike state state') (env : String) :
    Alike (state.beginEnv contexts env) (state'.beginEnv contexts env) := by
  refine ⟨?_, ?_, h.rearm, h.waiting⟩
  · exact congrArg (fun skeleton : Skeleton =>
      { skeleton with envs := env :: skeleton.envs, pending := some "begin" }) h.skeleton
  · simp only [State.beginEnv, h.hold, h.envs]

theorem endEnv (h : Alike state state') (env : String) :
    Alike (state.endEnv env) (state'.endEnv env) := by
  have hskeleton :
      ({ state with envs := State.closeEnv env state.envs, pending := none } : State).skeleton =
        ({ state' with envs := State.closeEnv env state.envs, pending := none } : State).skeleton :=
    congrArg (fun skeleton : Skeleton =>
      { skeleton with envs := State.closeEnv env state.envs, pending := none }) h.skeleton
  unfold State.endEnv
  dsimp only
  rw [← h.hold, ← h.envs]
  split
  · split
    · exact ⟨hskeleton, rfl, h.rearm, rfl⟩
    · exact ⟨hskeleton, rfl, h.rearm, h.waiting⟩
  · exact ⟨hskeleton, rfl, h.rearm, h.waiting⟩

theorem closeFrame (h : Alike state state') {frame frame' : Frame} {outer outer' : List Frame}
    (hopener : frame.opener = frame'.opener)
    (houter : outer.map (fun frame => (frame.delimiter, frame.opener)) =
      outer'.map fun frame => (frame.delimiter, frame.opener))
    (hfollows : State.argumentFollows rest = State.argumentFollows rest') :
    Alike (state.closeFrame frame outer rest) (state'.closeFrame frame' outer' rest') := by
  have hlength : outer.length = outer'.length := by simpa using congrArg List.length houter
  have hskeleton : ({ state with frames := outer, pending := frame.opener } : State).skeleton =
      ({ state' with frames := outer', pending := frame'.opener } : State).skeleton := by
    rw [State.skeleton, State.skeleton, houter, hopener, h.envs]
  unfold State.closeFrame
  dsimp only
  rw [← h.hold, ← hlength, ← hfollows]
  split
  · split
    · exact ⟨hskeleton, rfl, rfl, h.waiting⟩
    · exact ⟨hskeleton, rfl, h.rearm, rfl⟩
  · exact ⟨hskeleton, rfl, h.rearm, h.waiting⟩

/-- A closing delimiter does the same in both. -/
theorem close (h : Alike state state') {delimiter : Delimiter}
    (hfollows : State.argumentFollows rest = State.argumentFollows rest')
    (hclose : Relocation.close state delimiter delimiter.right rest = .next after rest) :
    ∃ after', Relocation.close state' delimiter delimiter.right rest' = .next after' rest' ∧
      Alike after after' := by
  have hframes : state.frames.map (fun frame => (frame.delimiter, frame.opener)) =
      state'.frames.map fun frame => (frame.delimiter, frame.opener) :=
    congrArg Skeleton.frames h.skeleton
  have hplain : Alike ((state.emit [delimiter.right]).awaiting none)
      ((state'.emit [delimiter.right]).awaiting none) := (h.emit _ _).awaiting none
  unfold Relocation.close at hclose ⊢
  cases hopen : state.frames with
  | nil =>
    rw [hopen, List.map_nil] at hframes
    rw [List.map_eq_nil_iff.mp hframes.symm]
    rw [hopen] at hclose
    dsimp only at hclose ⊢
    split at hclose
    · cases hclose
    · next hbrace =>
      rw [if_neg hbrace]
      exact ⟨_, rfl, (Step.next.inj hclose).1 ▸ hplain⟩
  | cons frame outer =>
    rw [hopen, List.map_cons] at hframes
    obtain ⟨frame', outer', hopen', hframe, houter⟩ := List.map_eq_cons_iff.mp hframes.symm
    obtain ⟨hdelimiter, hopener⟩ := Prod.mk.inj hframe
    rw [hopen] at hclose
    rw [hopen']
    dsimp only at hclose ⊢
    rw [hdelimiter]
    split at hclose
    · next hopened =>
      rw [if_pos hopened]
      exact ⟨_, rfl, (Step.next.inj hclose).1 ▸
        (h.emit _ _).closeFrame hopener.symm houter.symm hfollows⟩
    · next hopened =>
      rw [if_neg hopened]
      split at hclose
      · cases hclose
      · next hbrace =>
        rw [if_neg hbrace]
        exact ⟨_, rfl, (Step.next.inj hclose).1 ▸ hplain⟩

/-- **What a lexeme does to a state it does to every state like it**, a note to one with a note of its
own. -/
theorem act (h : Alike state state') (hcloses : bracketCloses rest = bracketCloses rest')
    (hfollows : State.argumentFollows rest = State.argumentFollows rest')
    (hact : state.act contexts lexeme piece rest = .next after rest) (piece' : Text) :
    ∃ after', state'.act contexts lexeme piece' rest' = .next after' rest' ∧ Alike after after' := by
  have hemit := h.emit piece piece'
  cases lexeme with
  | comment => exact ⟨_, rfl, (Step.next.inj hact).1 ▸ hemit⟩
  | escape => exact ⟨_, rfl, (Step.next.inj hact).1 ▸ hemit.awaiting none⟩
  | verbatim => exact ⟨_, rfl, (Step.next.inj hact).1 ▸ hemit.awaiting none⟩
  | command name => exact ⟨_, rfl, (Step.next.inj hact).1 ▸ hemit.awaiting (some name)⟩
  | note =>
    rw [State.act] at hact ⊢
    rw [← h.hold]
    split at hact
    · next hhold =>
      rw [if_pos hhold]
      exact ⟨_, rfl, (Step.next.inj hact).1 ▸ (h.lift piece piece').awaiting none⟩
    · next hhold =>
      rw [if_neg hhold]
      exact ⟨_, rfl, (Step.next.inj hact).1 ▸ ((h.warn contexts).emit piece piece').awaiting none⟩
  | brokenNote => cases hact
  | opening env => exact ⟨_, rfl, (Step.next.inj hact).1 ▸ hemit.beginEnv env⟩
  | ending env => exact ⟨_, rfl, (Step.next.inj hact).1 ▸ hemit.endEnv env⟩
  | nameless => exact ⟨_, rfl, (Step.next.inj hact).1 ▸ hemit.awaiting none⟩
  | left delimiter =>
    cases delimiter with
    | brace => exact ⟨_, rfl, (Step.next.inj hact).1 ▸ (h.openFrame .brace).emit piece piece'⟩
    | bracket =>
      rw [State.act] at hact ⊢
      change (if (state.pending.isSome && bracketCloses rest) = true then _ else _) = _ at hact
      change ∃ after', (if (state'.pending.isSome && bracketCloses rest') = true then _ else _) =
        _ ∧ _
      rw [← h.pending, ← hcloses]
      split at hact
      · next hopens =>
        rw [if_pos hopens]
        exact ⟨_, rfl, (Step.next.inj hact).1 ▸ (h.openFrame .bracket).emit piece piece'⟩
      · next hopens =>
        rw [if_neg hopens]
        exact ⟨_, rfl, (Step.next.inj hact).1 ▸ hemit.awaiting none⟩
  | right delimiter => exact h.close hfollows hact
  | blanks paragraph =>
    cases paragraph with
    | true => exact ⟨_, rfl, (Step.next.inj hact).1 ▸ hemit.awaiting none⟩
    | false => exact ⟨_, rfl, (Step.next.inj hact).1 ▸ hemit⟩
  | plain => exact ⟨_, rfl, (Step.next.inj hact).1 ▸ hemit.awaiting none⟩

/-! ### What both write -/

/-- Where one keeps the notes that wait, so does the other. -/
theorem copied (h : Alike state state') (hafter : Alike after after')
    (hstash : after.stash = state.stash) (hwrote : Wrote state' after' piece) :
    after'.output = state'.output ++ piece ∧ after'.stash = state'.stash := by
  rcases hwrote with hcopied | ⟨houtput, hnone, -, -⟩
  · exact hcopied
  · -- Both have no notes that wait, so writing them writes nothing.
    have hlength : state'.stash.length = 0 := by
      rw [← h.waiting, ← hstash, hafter.waiting, hnone, List.length_nil]
    have hnil := List.length_eq_zero_iff.mp hlength
    rw [hnil] at houtput ⊢
    exact ⟨houtput.trans (List.append_nil _), hnone⟩

/-- Where one writes the notes that wait, so does the other. -/
theorem flushed (hafter : Alike after after') (hstash : after.stash = [])
    (hwrote : Wrote state' after' piece) :
    after'.output = state'.output ++ piece ++ state'.stash.flatten ∧ after'.stash = [] := by
  rcases hwrote with ⟨houtput, hkept⟩ | ⟨houtput, hnone, -, -⟩
  · have hlength : after'.stash.length = 0 := by
      rw [← hafter.waiting, hstash, List.length_nil]
    have hnil := List.length_eq_zero_iff.mp hlength
    rw [← hkept, hnil]
    exact ⟨houtput.trans (List.append_nil _).symm, rfl⟩
  · exact ⟨houtput, hnone⟩

end Alike

/-! ### What a lexeme leaves -/

section Templates

variable {template : Noted}

/-- A lexeme that is no note is written in front of what the run behind it writes, and the notes that
wait at most between them. -/
theorem exists_template_text (hbegins : Begins lexeme piece rest) (hnote : lexeme ≠ .note)
    (hact : state.act contexts lexeme piece rest = .next after rest)
    (hlength : template.notes.length = after.stash.length + (Noted.ofText rest).notes.length) :
    ∃ template' : Noted,
      template'.notes.length = state.stash.length + (Noted.ofText (piece ++ rest)).notes.length ∧
      ∀ state' after' rest', Alike state state' → Alike after after' → Refilled rest rest' →
        Begins lexeme piece rest' → state'.act contexts lexeme piece rest' = .next after' rest' →
        after'.output ++ (template.refill (after'.stash ++ (Noted.ofText rest').notes)).toText =
          state'.output ++
            (template'.refill (state'.stash ++ (Noted.ofText (piece ++ rest')).notes)).toText := by
  have hlength' {after' : State} {rest' : Text} (hafter : Alike after after')
      (hrefilled : Refilled rest rest') :
      (after'.stash ++ (Noted.ofText rest').notes).length = template.notes.length := by
    rw [List.length_append, ← hafter.waiting, ← hrefilled.length_notes, hlength]
  -- The notes that wait go on waiting, or all of them are put behind the lexeme; which of the two
  -- depends on the state and not on the notes.
  rcases act_wrote hbegins hact (fun h => absurd h hnote) with
    ⟨-, hstash⟩ | ⟨-, hstash, -, -⟩
  · refine ⟨template.push piece, ?_, ?_⟩
    · rw [Noted.notes_push, hbegins.ofText_push hnote, Noted.notes_push, hlength, hstash]
    · intro state' after' rest' halike hafter hrefilled hbegins' hact'
      obtain ⟨houtput, hkept⟩ := halike.copied hafter hstash
        (act_wrote hbegins' hact' fun h => absurd h hnote)
      have hsame := hlength' hafter hrefilled
      rw [hkept] at hsame
      rw [hbegins'.ofText_push hnote, Noted.notes_push, Noted.refill_push _ _ _ hsame,
        Noted.toText_push, houtput, hkept, List.append_assoc]
  · refine ⟨(template.putAll state.stash).push piece, ?_, ?_⟩
    · rw [Noted.notes_push, Noted.notes_putAll, List.length_append, hbegins.ofText_push hnote,
        Noted.notes_push, hlength, hstash, List.length_nil, Nat.zero_add]
    · intro state' after' rest' halike hafter hrefilled hbegins' hact'
      obtain ⟨houtput, hnone⟩ := hafter.flushed hstash
        (act_wrote hbegins' hact' fun h => absurd h hnote)
      have hsame := hlength' hafter hrefilled
      rw [hnone, List.nil_append] at hsame
      have hpushed : (state'.stash ++ (Noted.ofText rest').notes).length =
          (template.putAll state.stash).notes.length := by
        rw [Noted.notes_putAll, List.length_append, List.length_append, halike.waiting, hsame]
      rw [hbegins'.ofText_push hnote, Noted.notes_push, Noted.refill_push _ _ _ hpushed,
        Noted.refill_putAll _ _ halike.waiting.symm, Noted.toText_push, Noted.toText_putAll, houtput,
        hnone, List.nil_append]
      simp only [List.append_assoc]

/-- A note waits, or it is written where no other note waits. -/
theorem exists_template_note (hbegins : Begins .note piece rest)
    (hfree : state.hold = none → state.stash = [])
    (hact : state.act contexts .note piece rest = .next after rest)
    (hlength : template.notes.length = after.stash.length + (Noted.ofText rest).notes.length) :
    ∃ template' : Noted,
      template'.notes.length = state.stash.length + (Noted.ofText (piece ++ rest)).notes.length ∧
      ∀ state' after' note' rest', Alike state state' → Alike after after' →
        Begins .note note' rest' → state'.act contexts .note note' rest' = .next after' rest' →
        after'.output ++ (template.refill (after'.stash ++ (Noted.ofText rest').notes)).toText =
          state'.output ++
            (template'.refill (state'.stash ++ (Noted.ofText (note' ++ rest')).notes)).toText := by
  -- A lifted note joins the end of those that wait, which is where the text has it.
  by_cases hhold : state.hold.isSome = true
  · rw [State.act, if_pos hhold] at hact
    obtain ⟨rfl, -⟩ := Step.next.inj hact
    refine ⟨template, ?_, ?_⟩
    · have hwaiting : ((state.lift piece).awaiting none).stash.length = state.stash.length + 1 :=
        List.length_append
      rw [hlength, hwaiting, hbegins.ofText_note, Noted.notes_put, List.length_cons]
      omega
    · intro state' after' note' rest' halike hafter hbegins' hact'
      rw [State.act, if_pos (halike.hold ▸ hhold)] at hact'
      obtain ⟨rfl, -⟩ := Step.next.inj hact'
      have hnotes : ((state'.lift note').awaiting none).stash ++ (Noted.ofText rest').notes =
          state'.stash ++ (Noted.ofText (note' ++ rest')).notes := by
        rw [hbegins'.ofText_note, Noted.notes_put]
        exact List.append_assoc state'.stash [note'] _
      rw [hnotes]
      rfl
  · have hnone := Option.not_isSome_iff_eq_none.mp hhold
    have hstash := hfree hnone
    rcases act_wrote hbegins hact (fun _ => hnone) with ⟨-, hkept⟩ | ⟨-, -, hsome, -⟩
    · refine ⟨template.put piece, ?_, ?_⟩
      · rw [Noted.notes_put, List.length_cons, hlength, hbegins.ofText_note, Noted.notes_put,
          List.length_cons, hkept, Nat.add_assoc]
      · intro state' after' note' rest' halike hafter hbegins' hact'
        obtain ⟨houtput, hkept'⟩ := halike.copied hafter hkept
          (act_wrote hbegins' hact' fun _ => halike.hold ▸ hnone)
        have hstash' : state'.stash = [] := by
          rw [← List.length_eq_zero_iff, ← halike.waiting, hstash, List.length_nil]
        rw [hbegins'.ofText_note, Noted.notes_put, houtput, hkept', hstash', List.nil_append,
          List.nil_append, Noted.refill_put, Noted.toText_put, List.append_assoc]
    · exact absurd hsome hhold

end Templates

/-! ### Runs -/

/-- All runs like the one from the state over the text to `final` end alike, and write the template
with the notes that wait and those of their text in it. -/
structure Template (contexts : Contexts) (state : State) (text : Text) (final : State)
    (template : Noted) : Prop where
  length : template.notes.length = state.stash.length + (Noted.ofText text).notes.length
  fills : ∀ state' text', Alike state state' → Refilled text text' →
    ∃ last, Reaches contexts state' text' last [] ∧ last.skeleton = final.skeleton ∧
      last.flush.output =
        state'.output ++ (template.refill (state'.stash ++ (Noted.ofText text').notes)).toText

/-- At the end of the text the notes that wait are written. -/
theorem template_nil (contexts : Contexts) (state : State) :
    Template contexts state [] state (.putAll state.stash ⟨[], []⟩) where
  length := by rw [Noted.notes_putAll, Noted.ofText, List.length_append]
  fills state' text' halike hrefilled := by
    obtain rfl := hrefilled.eq_nil
    refine ⟨state', .refl _ _, halike.skeleton.symm, ?_⟩
    rw [Noted.refill_putAll _ _ halike.waiting.symm, Noted.toText_putAll, State.output_flush]
    refine congrArg (state'.output ++ ·) ?_
    rw [Noted.ofText]
    exact (List.append_nil _).symm

/-- A template for the run behind a lexeme gives one for the run from before it, once the state has
settled. -/
theorem exists_template_act {c : Char} {template : Noted} (hwaits : Waits state)
    (hbegins : Begins lexeme (c :: piece) rest)
    (hact : (state.settle c).act contexts lexeme (c :: piece) rest = .next after rest)
    (h : Template contexts after rest final template) :
    ∃ settled : Noted,
      settled.notes.length =
        (state.settle c).stash.length + (Noted.ofText (c :: piece ++ rest)).notes.length ∧
      ∀ state' text', Alike state state' → Refilled (c :: piece ++ rest) text' →
        ∃ last, Reaches contexts state' text' last [] ∧ last.skeleton = final.skeleton ∧
          last.flush.output = (state'.settle c).output ++
            (settled.refill ((state'.settle c).stash ++ (Noted.ofText text').notes)).toText := by
  -- A run that is alike settles alike, and reads a lexeme that does the same.
  have hreads : ∀ state' text', Alike state state' → Refilled (c :: piece ++ rest) text' →
      ∃ piece' rest' after' last, text' = piece' ++ rest' ∧ Begins lexeme piece' rest' ∧
        (lexeme ≠ .note → piece' = c :: piece) ∧ Alike (state.settle c) (state'.settle c) ∧
        Alike after after' ∧ Refilled rest rest' ∧
        (state'.settle c).act contexts lexeme piece' rest' = .next after' rest' ∧
        Reaches contexts state' text' last [] ∧ last.skeleton = final.skeleton ∧
        last.flush.output =
          after'.output ++ (template.refill (after'.stash ++ (Noted.ofText rest').notes)).toText := by
    intro state' text' halike hrefilled
    obtain ⟨piece', rest', rfl, hbegins', hrest, -, hhead, hpiece⟩ := hrefilled.reads hbegins
    obtain ⟨d, text, htext, -, hstep⟩ := hbegins'.step_eq contexts state'
    obtain ⟨d', word, rfl, -⟩ := hbegins'.eq_cons
    obtain rfl : d' = c := Option.some.inj hhead
    obtain ⟨rfl, rfl⟩ := List.cons.inj htext
    have hsettle := halike.settle d'
    obtain ⟨after', hact', hafter⟩ :=
      hsettle.act hrest.bracketCloses_eq hrest.argumentFollows_eq hact (d' :: word)
    obtain ⟨last, hreaches, hskeleton, houtput⟩ := h.fills after' rest' hafter hrest
    exact ⟨d' :: word, rest', after', last, rfl, hbegins', hpiece, hsettle, hafter, hrest, hact',
      .step (hstep.trans hact') hreaches, hskeleton, houtput⟩
  by_cases hnote : lexeme = .note
  · subst hnote
    obtain ⟨settled, hlength, hwrites⟩ :=
      exists_template_note hbegins (hwaits.stash_eq_nil hbegins) hact h.length
    refine ⟨settled, hlength, fun state' text' halike hrefilled => ?_⟩
    obtain ⟨piece', rest', after', last, rfl, hbegins', -, hsettle, hafter, -, hact', hreaches,
      hskeleton, houtput⟩ := hreads state' text' halike hrefilled
    exact ⟨last, hreaches, hskeleton,
      houtput.trans (hwrites _ after' piece' rest' hsettle hafter hbegins' hact')⟩
  · obtain ⟨settled, hlength, hwrites⟩ := exists_template_text hbegins hnote hact h.length
    refine ⟨settled, hlength, fun state' text' halike hrefilled => ?_⟩
    obtain ⟨piece', rest', after', last, rfl, hbegins', hpiece, hsettle, hafter, hrest, hact',
      hreaches, hskeleton, houtput⟩ := hreads state' text' halike hrefilled
    obtain rfl := hpiece hnote
    exact ⟨last, hreaches, hskeleton,
      houtput.trans (hwrites _ after' rest' hsettle hafter hrest hbegins' hact')⟩

/-- **Every run has a template**: what is written around the notes is a matter of the text around
them. -/
theorem Reaches.exists_template (h : Reaches contexts state text final []) (hwaits : Waits state) :
    ∃ template, Template contexts state text final template := by
  generalize hnil : ([] : Text) = rest at h
  induction h with
  | refl state =>
    subst hnil
    exact ⟨_, template_nil contexts state⟩
  | @step state mid final c tail left rest hstep _ ih =>
    obtain ⟨lexeme, piece, rfl, hbegins, hact⟩ := exists_begins_of_step hstep
    obtain ⟨template, htemplate⟩ := ih ((hwaits.settle c).act hact) hnil
    obtain ⟨settled, hlength, hruns⟩ := exists_template_act hwaits hbegins hact htemplate
    rcases Alike.settle_cases state c with hkept | hflushed
    · rw [hkept state (.refl state)] at hlength
      refine ⟨settled, hlength, fun state' text' halike hrefilled => ?_⟩
      obtain ⟨last, hreaches, hskeleton, houtput⟩ := hruns state' text' halike hrefilled
      rw [hkept state' halike] at houtput
      exact ⟨last, hreaches, hskeleton, houtput⟩
    · rw [hflushed state (.refl state)] at hlength
      refine ⟨settled.putAll state.stash, ?_, fun state' text' halike hrefilled => ?_⟩
      · rw [Noted.notes_putAll, List.length_append, hlength]
        exact congrArg (state.stash.length + ·) (Nat.zero_add _)
      · obtain ⟨last, hreaches, hskeleton, houtput⟩ := hruns state' text' halike hrefilled
        rw [hflushed state' halike] at houtput
        refine ⟨last, hreaches, hskeleton, ?_⟩
        rw [houtput, Noted.refill_putAll _ _ halike.waiting.symm, Noted.toText_putAll,
          ← List.append_assoc, ← State.output_flush]
        rfl

/-! ### The pass -/

/-- A text that the pass accepts is accepted with other notes, and what is written is the same around
them. -/
theorem exists_template_relocate {out : Text} (hout : (relocate contexts text).result = .ok out) :
    ∃ template : Noted, template.notes.length = (Noted.ofText text).notes.length ∧
      ∀ text', Refilled text text' →
        (relocate contexts text').result = .ok (template.refill (Noted.ofText text').notes).toText := by
  obtain ⟨final, hreaches, hframes, -⟩ := (relocate_eq_ok_iff text out).mp hout
  obtain ⟨template, htemplate⟩ := hreaches.exists_template waits_start
  refine ⟨template, htemplate.length.trans (Nat.zero_add _), fun text' hrefilled => ?_⟩
  obtain ⟨last, hlast, hskeleton, houtput⟩ := htemplate.fills .start text' (.refl _) hrefilled
  refine (relocate_eq_ok_iff text' _).mpr ⟨last, hlast, ?_, houtput⟩
  have hlength := congrArg (fun skeleton : Skeleton => skeleton.frames.length) hskeleton
  simp only [State.skeleton, List.length_map] at hlength
  rw [← List.length_eq_zero_iff, hlength, hframes, List.length_nil]

/-- **What a note says never matters.**  If a text has no verbatim text, then with other notes in the
places of its own the pass reads these notes, and it accepts the text if and only if it accepts it with
its own; and what it writes is what it writes for the text with its own notes, but for these. -/
theorem relocate_refill (hverbatim : .verbatim ∉ lexemes text) :
    (∀ notes : List Text, notes.length = (Noted.ofText text).notes.length →
      (∀ note ∈ notes, IsNote note) →
      Noted.ofText ((Noted.ofText text).refill notes).toText = (Noted.ofText text).refill notes ∧
        ((∃ out, (relocate contexts ((Noted.ofText text).refill notes).toText).result = .ok out) ↔
          ∃ out, (relocate contexts text).result = .ok out)) ∧
    ∀ out, (relocate contexts text).result = .ok out →
      ∃ moved : Noted, moved.toText = out ∧ moved.notes = (Noted.ofText text).notes ∧
        ∀ notes : List Text, notes.length = (Noted.ofText text).notes.length →
          (∀ note ∈ notes, IsNote note) →
          (relocate contexts ((Noted.ofText text).refill notes).toText).result =
            .ok (moved.refill notes).toText := by
  refine ⟨fun notes hlength hnotes => ?_, fun out hout => ?_⟩
  · obtain ⟨hrefilled, hcut⟩ := refilled_refill hverbatim hlength hnotes
    refine ⟨hcut, ?_, ?_⟩
    · rintro ⟨out, hout⟩
      obtain ⟨template, -, hruns⟩ := exists_template_relocate hout
      exact ⟨_, hruns text hrefilled.symm⟩
    · rintro ⟨out, hout⟩
      obtain ⟨template, -, hruns⟩ := exists_template_relocate hout
      exact ⟨_, hruns _ hrefilled⟩
  · obtain ⟨template, hlength, hruns⟩ := exists_template_relocate hout
    refine ⟨template.refill (Noted.ofText text).notes, ?_, ?_, fun notes hnotes hwell => ?_⟩
    · have hself := hruns text (refilled_self hverbatim)
      exact Except.ok.inj (hself.symm.trans hout)
    · exact Noted.notes_refill _ hlength.symm
    · obtain ⟨hrefilled, hcut⟩ := refilled_refill hverbatim hnotes hwell
      rw [hruns _ hrefilled, hcut, Noted.notes_refill _ hnotes, Noted.refill_refill _ _ hlength.symm]

/-- A note in the option of a caption, and one in its place that has brackets, a comment with a brace,
and a line feed in it. -/
theorem relocate_refill_bracket :
    let note := noteText ['k'] ['a']
    let note' := noteText ['l'] "][%\x7d\n[\\verb".toList
    let text := "\\caption[x".toList ++ (note ++ "]\x7by\x7dz".toList)
    let out := "\\caption[x]\x7by\x7d".toList ++ (note ++ ['z'])
    (relocate .standard text).result = .ok out ∧
      ((Noted.ofText text).refill [note']).toText =
        "\\caption[x".toList ++ (note' ++ "]\x7by\x7dz".toList) ∧
      ∃ moved : Noted, moved.toText = out ∧ moved.notes = [note] ∧
        (relocate .standard ((Noted.ofText text).refill [note']).toText).result =
          .ok (moved.refill [note']).toText := by
  intro note note' text out
  have hverbatim : .verbatim ∉ lexemes text :=
    not_mem_lexemes (by decide +kernel) fun env => by cases env <;> decide +kernel
  have hrelocate : (relocate .standard text).result = .ok out := by decide +kernel
  have hnotes : (Noted.ofText text).notes = [note] := by decide +kernel
  have hnote : IsNote note' := isNote_noteText (by decide +kernel) (by decide +kernel)
  obtain ⟨moved, hmoved, hsame, hruns⟩ := (relocate_refill hverbatim).2 out hrelocate
  refine ⟨hrelocate, by decide +kernel, moved, hmoved, hsame.trans hnotes, ?_⟩
  exact hruns [note'] (by rw [hnotes]; rfl) (List.forall_mem_singleton.mpr hnote)

end Marginalia.Relocation
