import Marginalia.Proofs.Relocation.Tree

/-! # Relocation of printed trees

The relocation pass reads a text from left to right and has no tree.  On the text of a well-formed
tree it writes the text of the relocated tree (`relocate_print`).

Two invariants carry the proof.  Inside a restricted context, which the state holds (`Held`), a
document is written without its notes, and the notes wait in order (`Document.run_held`).  Outside
every restricted context the document is written relocated, and no note waits
(`Document.run_free`).  In both cases groups, environments and the held context are at the end what
they were at the beginning (`Passed`).

A run of white space is read in one step, so a run over a document takes the white space before
it along; `Terminal` says that none follows.
-/
namespace Marginalia.Relocation

open Text Latex

variable {contexts : Contexts} {state mid after : State}

/-! ### What a run leaves unchanged -/

/-- A run that wrote the given text, took out the given notes, and left groups, environments and
the held context as they were. -/
structure Passed (state after : State) (text : Text) (notes : List Text) : Prop where
  frames : after.frames = state.frames
  envs : after.envs = state.envs
  hold : after.hold = state.hold
  rearm : after.rearm = state.rearm
  stash : after.stash = state.stash ++ notes
  output : after.output = state.output ++ text

namespace Passed

variable {text text' : Text} {notes notes' : List Text}

theorem refl (state : State) : Passed state state [] [] :=
  ⟨rfl, rfl, rfl, rfl, by simp, by simp⟩

theorem trans (h : Passed state mid text notes) (h' : Passed mid after text' notes') :
    Passed state after (text ++ text') (notes ++ notes') where
  frames := h'.frames.trans h.frames
  envs := h'.envs.trans h.envs
  hold := h'.hold.trans h.hold
  rearm := h'.rearm.trans h.rearm
  stash := by rw [h'.stash, h.stash, List.append_assoc]
  output := by rw [h'.output, h.output, List.append_assoc]

theorem emit (state : State) (piece : Text) (pending : Option String) :
    Passed state ((state.emit piece).awaiting pending) piece [] where
  frames := rfl
  envs := rfl
  hold := rfl
  rearm := rfl
  stash := (List.append_nil _).symm
  output := State.output_emit state piece

theorem pass (state : State) (blanks : Text) : Passed state (state.pass blanks) blanks [] := by
  unfold State.pass
  split
  · next h =>
    rw [h]
    exact refl state
  · split
    · exact emit state blanks none
    · exact emit state blanks state.pending

end Passed

/-- No character that goes on with a document stands at the front of the text: a document ends
there. -/
def Terminal (text : Text) : Prop :=
  ∀ c ∈ text.head?, c = '}' ∨ c = ']' ∨ c = '\\'

theorem terminal_right (delimiter : Delimiter) (text : Text) :
    Terminal (delimiter.right :: text) := by
  intro c hc
  rw [List.head?_cons, Option.mem_some] at hc
  cases delimiter with
  | brace => exact .inl hc.symm
  | bracket => exact .inr (.inl hc.symm)

theorem terminal_endText (name : String) (text : Text) : Terminal (endText name ++ text) := by
  intro c hc
  rw [endText_append, List.head?_cons, Option.mem_some] at hc
  exact .inr (.inr hc.symm)

theorem Terminal.stops {text : Text} (h : Terminal text) : Stops isTexBlank text := by
  intro c hc
  rcases h c hc with rfl | rfl | rfl <;> decide

/-! ### Inside a restricted context -/

/-- A restricted context is held, and it is one that is still open. -/
def Held (state : State) : Prop :=
  match state.hold with
  | some (.frame depth) => depth < state.frames.length
  | some (.env depth) => depth < state.envs.length
  | none => False

namespace Held

theorem of_frame {depth : Nat} (hhold : state.hold = some (.frame depth))
    (hdepth : depth < state.frames.length) : Held state := by
  unfold Held
  rwa [hhold]

theorem of_env {depth : Nat} (hhold : state.hold = some (.env depth))
    (hdepth : depth < state.envs.length) : Held state := by
  unfold Held
  rwa [hhold]

theorem isSome (h : Held state) : state.hold.isSome = true := by
  unfold Held at h
  split at h <;> simp_all

/-- A held context stays open as long as nothing closes. -/
theorem mono (h : Held state) (hhold : after.hold = state.hold)
    (hframes : state.frames.length ≤ after.frames.length)
    (henvs : state.envs.length ≤ after.envs.length) : Held after := by
  unfold Held at h ⊢
  rw [hhold]
  split at h
  · exact Nat.lt_of_lt_of_le h hframes
  · exact Nat.lt_of_lt_of_le h henvs
  · exact h

theorem of_passed {text : Text} {notes : List Text} (hp : Passed state after text notes)
    (h : Held state) : Held after :=
  h.mono hp.hold (Nat.le_of_eq (by rw [hp.frames])) (Nat.le_of_eq (by rw [hp.envs]))

/-- A group opens inside the context that is held. -/
theorem openFrame (h : Held state) (delimiter : Delimiter) :
    (state.openFrame contexts delimiter).hold = state.hold := by
  rw [State.openFrame, Option.isNone_eq_false_iff.mpr h.isSome]
  rfl

theorem beginEnv (h : Held state) (name : String) :
    (state.beginEnv contexts name).hold = state.hold := by
  rw [State.beginEnv, Option.isNone_eq_false_iff.mpr h.isSome]
  rfl

/-- The group that closes is not the one that is held. -/
theorem hold_ne_frame (h : Held state) : state.hold ≠ some (.frame state.frames.length) := by
  intro heq
  unfold Held at h
  rw [heq] at h
  exact Nat.lt_irrefl _ h

theorem lt_of_hold (h : Held state) (depth : Nat) (hhold : state.hold = some (.env depth)) :
    depth < state.envs.length := by
  unfold Held at h
  rwa [hhold] at h

end Held

/-! ### Groups, arguments and environments -/

/-- The closing of a group that is not held restores the state before its opening, but for what
was written and taken out inside. -/
theorem Passed.argument {delimiter : Delimiter} {text : Text} {notes : List Text}
    (h : Passed ((state.openFrame contexts delimiter).emit [delimiter.left]) mid text notes)
    (hopen : (state.openFrame contexts delimiter).hold = state.hold)
    (hhold : state.hold ≠ some (.frame state.frames.length)) (hrearm : state.rearm = false)
    (rest : Text) :
    ∃ after, run contexts mid (delimiter.right :: rest) = run contexts after rest ∧
      Passed state after (delimiter.left :: (text ++ [delimiter.right])) notes ∧
      after.pending = state.pending := by
  have hframes : mid.frames = ⟨delimiter, state.pending, state.offset⟩ :: state.frames := h.frames
  have hmidHold : mid.hold = state.hold := h.hold.trans hopen
  have hclose := @State.closeFrame_of_ne (mid.emit [delimiter.right])
    ⟨delimiter, state.pending, state.offset⟩ state.frames
    (fun heq => hhold (hmidHold.symm.trans heq)) rest
  refine ⟨_, run_right hframes rfl h.rearm rest, ?_, ?_⟩
  · rw [hclose]
    refine ⟨rfl, h.envs, hmidHold, h.rearm.trans hrearm.symm, h.stash, ?_⟩
    change (mid.emit [delimiter.right]).output = _
    rw [State.output_emit, h.output, State.output_emit, List.append_assoc, List.append_assoc]
    rfl
  · rw [hclose]

/-- A group or argument, given how a run goes over what stands in it. -/
theorem run_argument {delimiter : Delimiter} {body : Document} (hbody : body.WellFormed)
    (hpending : delimiter = .bracket → state.pending.isSome = true) {text : Text}
    {notes : List Text} {rest : Text}
    (hrun : ∃ mid, run contexts ((state.openFrame contexts delimiter).emit [delimiter.left])
        (body.print ++ delimiter.right :: rest) = run contexts mid (delimiter.right :: rest) ∧
      Passed ((state.openFrame contexts delimiter).emit [delimiter.left]) mid text notes)
    (hopen : (state.openFrame contexts delimiter).hold = state.hold)
    (hhold : state.hold ≠ some (.frame state.frames.length)) (hrearm : state.rearm = false) :
    ∃ after, run contexts state (delimiter.left :: (body.print ++ delimiter.right :: rest)) =
        run contexts after rest ∧
      Passed state after (delimiter.left :: (text ++ [delimiter.right])) notes ∧
      after.pending = state.pending := by
  obtain ⟨mid, hmid, hpassed⟩ := hrun
  obtain ⟨after, hright, hafter⟩ := hpassed.argument hopen hhold hrearm rest
  refine ⟨after, ?_, hafter⟩
  rw [← hright, ← hmid]
  refine run_left fun hbracket => ⟨hpending hbracket, ?_⟩
  subst hbracket
  exact body.bracketCloses_print hbody (bracketCloses_right rest)

theorem closeEnv_self (name : String) (envs : List String) :
    State.closeEnv name (name :: envs) = envs := by
  simp [State.closeEnv]

/-- At the end of what stands in an environment, its end closes the environment. -/
theorem Passed.closeEnv {name : String} {text : Text} {notes : List Text}
    (h : Passed ((state.emit (beginText name)).beginEnv contexts name) mid text notes) :
    State.closeEnv name mid.envs = state.envs := by
  have henvs : mid.envs = name :: state.envs := h.envs
  rw [henvs, closeEnv_self]

theorem Passed.output_beginEnv {name : String} {text : Text} {notes : List Text}
    (h : Passed ((state.emit (beginText name)).beginEnv contexts name) mid text notes) :
    mid.output = state.output ++ (beginText name ++ text) := by
  have hbegin : ((state.emit (beginText name)).beginEnv contexts name).output =
      (state.emit (beginText name)).output := rfl
  rw [h.output, hbegin, State.output_emit, List.append_assoc]

/-- The end of an environment that is not held restores the state before its beginning. -/
theorem Passed.environment {name : String} (hname : EnvironmentName name) {text : Text}
    {notes : List Text}
    (h : Passed ((state.emit (beginText name)).beginEnv contexts name) mid text notes)
    (hbegin : ((state.emit (beginText name)).beginEnv contexts name).hold = state.hold)
    (hhold : ∀ depth, state.hold = some (.env depth) → depth < state.envs.length)
    (hrearm : state.rearm = false) (rest : Text) :
    ∃ after, run contexts mid (endText name ++ rest) = run contexts after rest ∧
      Passed state after (beginText name ++ (text ++ endText name)) notes ∧
      after.pending = none := by
  have hmidHold : mid.hold = state.hold := h.hold.trans hbegin
  have hend : (mid.emit (endText name)).endEnv name =
      { mid.emit (endText name) with envs := state.envs, pending := none } := by
    have hclose : State.closeEnv name (mid.emit (endText name)).envs = state.envs := h.closeEnv
    rw [State.endEnv_of_open, hclose]
    intro depth heq
    rw [hclose]
    exact hhold depth (hmidHold.symm.trans heq)
  refine ⟨_, run_end hname (h.rearm.trans hrearm) rest, ?_, ?_⟩
  · rw [hend]
    refine ⟨h.frames, rfl, hmidHold, h.rearm, h.stash, ?_⟩
    change (mid.emit (endText name)).output = _
    rw [State.output_emit, h.output_beginEnv, List.append_assoc, List.append_assoc]
  · rw [hend]

/-! ### Documents inside a restricted context -/

/-- Whether the part is a character of white space. -/
def Item.isBlank : Item → Bool
  | .char c => isTexBlank c
  | _ => false

theorem Item.eq_char_of_isBlank {item : Item} (h : item.isBlank = true) :
    ∃ c, item = .char c ∧ isTexBlank c = true := by
  cases item with
  | char c => exact ⟨c, rfl, h⟩
  | _ => cases h

theorem blanks_append {blanks : Text} (h : ∀ c ∈ blanks, isTexBlank c = true) {c : Char}
    (hc : isTexBlank c = true) : ∀ d ∈ blanks ++ [c], isTexBlank d = true := by
  intro d hd
  rcases List.mem_append.mp hd with hd | hd
  · exact h d hd
  · rwa [List.mem_singleton.mp hd]

theorem Item.stops_print {item : Item} (hblank : item.isBlank = false) (rest : Text) :
    Stops isTexBlank (item.print ++ rest) := by
  cases item with
  | char c => exact stops_cons.mpr hblank
  | group body => exact stops_cons.mpr (by decide)
  | command name args => exact stops_cons.mpr (by decide)
  | environment name body => exact stops_cons.mpr (by decide)
  | note key body => exact stops_cons.mpr (by decide)

/-- A run over a document, given how a run goes over its first part and over the rest. -/
theorem run_document {item : Item} {doc : Document} {itemOut docOut : Text}
    {itemNotes docNotes : List Text} {P : State → Prop} (blanks : Text)
    (hblanks : ∀ c ∈ blanks, isTexBlank c = true) (hblank : item.isBlank = false) {rest : Text}
    (hitem : ∃ mid, run contexts (state.pass blanks) (item.print ++ (doc.print ++ rest)) =
        run contexts mid (doc.print ++ rest) ∧
      Passed (state.pass blanks) mid itemOut itemNotes ∧ P mid)
    (hdoc : ∀ mid, Passed state mid (blanks ++ itemOut) itemNotes → P mid →
      ∃ after, run contexts mid (doc.print ++ rest) = run contexts after rest ∧
        Passed mid after docOut docNotes) :
    ∃ after, run contexts state (blanks ++ ((Document.cons item doc).print ++ rest)) =
        run contexts after rest ∧
      Passed state after (blanks ++ (itemOut ++ docOut)) (itemNotes ++ docNotes) := by
  obtain ⟨mid, hrun, hmid, hP⟩ := hitem
  have hpassed : Passed state mid (blanks ++ itemOut) itemNotes := (Passed.pass state blanks).trans hmid
  obtain ⟨after, hrest, hafter⟩ := hdoc mid hpassed hP
  refine ⟨after, ?_, by simpa using hpassed.trans hafter⟩
  rw [Document.print, List.append_assoc, run_blanks hblanks (item.stops_print hblank _), hrun, hrest]

theorem run_command_args {name : String} (hname : CommandName name) (hrearm : state.rearm = false)
    (args : Arguments) (rest : Text) :
    run contexts state ((Item.command name args).print ++ rest) =
      run contexts ((state.emit ('\\' :: name.toList)).awaiting (some name))
        (args.print ++ rest) := by
  obtain ⟨delimiter, text, htext⟩ := args.print_append rest
  rw [Item.print, List.cons_append, List.append_assoc, htext, run_command hname delimiter hrearm]

/-- A group or argument in a restricted context, given how runs go over what stands in it. -/
theorem run_argument_held {delimiter : Delimiter} {body : Document} (hbody : body.WellFormed)
    {text : Text} {notes : List Text}
    (ih : ∀ (inner : State) (rest : Text), Held inner → inner.rearm = false → Terminal rest →
      ∃ mid, run contexts inner (body.print ++ rest) = run contexts mid rest ∧
        Passed inner mid text notes)
    (hheld : Held state) (hrearm : state.rearm = false)
    (hpending : delimiter = .bracket → state.pending.isSome = true) (rest : Text) :
    ∃ after, run contexts state (delimiter.left :: (body.print ++ delimiter.right :: rest)) =
        run contexts after rest ∧
      Passed state after (delimiter.left :: (text ++ [delimiter.right])) notes ∧
      after.pending = state.pending := by
  have hopen := @Held.openFrame contexts state hheld delimiter
  have hinner : Held ((state.openFrame contexts delimiter).emit [delimiter.left]) :=
    hheld.mono hopen (Nat.le_succ _) (Nat.le_refl _)
  exact run_argument hbody hpending (ih _ _ hinner rfl (terminal_right delimiter rest)) hopen
    hheld.hold_ne_frame hrearm

mutual

theorem Item.run_held (item : Item) (hitem : item.WellFormed) (hblank : item.isBlank = false)
    (state : State) (hheld : Held state) (hrearm : state.rearm = false) (rest : Text) :
    ∃ after, run contexts state (item.print ++ rest) = run contexts after rest ∧
      Passed state after item.strip.print (noteTexts item.notes) := by
  match item, hitem with
  | .char c, hc => exact ⟨_, run_plain hc hblank hrearm rest, Passed.emit state [c] none⟩
  | .group body, hbody =>
    obtain ⟨after, hrun, hafter, -⟩ := @run_argument_held contexts state .brace body hbody _ _
      (fun inner rest h hr ht => body.run_held hbody inner [] h hr (by simp) ht) hheld hrearm
      (by simp) rest
    rw [Item.strip, Document.print_single, Item.print, Item.print, Item.notes, List.cons_append,
      List.append_assoc]
    exact ⟨after, hrun, hafter⟩
  | .command name args, ⟨hname, hargs⟩ =>
    have hpassed := Passed.emit state ('\\' :: name.toList) (some name)
    obtain ⟨after, hrun, hafter, -⟩ :=
      args.run_held hargs _ (hheld.of_passed hpassed) hrearm rfl rest
    rw [run_command_args hname hrearm, Item.strip, Document.print_single, Item.print, Item.notes]
    exact ⟨after, hrun, hpassed.trans hafter⟩
  | .environment name body, ⟨hname, hbody⟩ =>
    have hbegin := @Held.beginEnv contexts (state.emit (beginText name)) hheld name
    have hinner : Held ((state.emit (beginText name)).beginEnv contexts name) :=
      hheld.mono hbegin (Nat.le_refl _) (Nat.le_succ _)
    obtain ⟨mid, hrun, hmid⟩ := body.run_held hbody _ [] hinner hrearm (by simp)
      (terminal_endText name rest)
    obtain ⟨after, hend, hafter, -⟩ :=
      hmid.environment hname hbegin hheld.lt_of_hold hrearm rest
    rw [Item.strip, Document.print_single, Item.print, Item.print, Item.notes, List.append_assoc,
      List.append_assoc, run_begin hname hrearm]
    exact ⟨after, hrun.trans hend, hafter⟩
  | .note key body, ⟨hkey, hbody⟩ =>
    refine ⟨_, run_note_held hkey hbody hrearm hheld.isSome rest, ?_⟩
    exact ⟨rfl, rfl, rfl, rfl, rfl, (List.append_nil _).symm⟩

/-- Inside a restricted context a document is written without its notes, and these wait. -/
theorem Document.run_held (doc : Document) (hdoc : doc.WellFormed) (state : State) (blanks : Text)
    (hheld : Held state) (hrearm : state.rearm = false)
    (hblanks : ∀ c ∈ blanks, isTexBlank c = true) {rest : Text} (hrest : Terminal rest) :
    ∃ after, run contexts state (blanks ++ (doc.print ++ rest)) = run contexts after rest ∧
      Passed state after (blanks ++ doc.strip.print) (noteTexts doc.notes) := by
  match doc, hdoc with
  | .nil, _ =>
    refine ⟨_, run_blanks hblanks hrest.stops, ?_⟩
    rw [Document.strip, Document.print, List.append_nil]
    exact Passed.pass state blanks
  | .cons item doc, ⟨hitem, _, hdoc⟩ =>
    by_cases hblank : item.isBlank = true
    · obtain ⟨c, rfl, hc⟩ := item.eq_char_of_isBlank hblank
      obtain ⟨after, hrun, hafter⟩ := doc.run_held hdoc state (blanks ++ [c]) hheld hrearm
        (blanks_append hblanks hc) hrest
      rw [List.append_assoc] at hrun hafter
      exact ⟨after, hrun, hafter⟩
    · rw [Bool.not_eq_true] at hblank
      have hpass := Passed.pass state blanks
      rw [Document.strip, Document.print_append, Document.notes, noteTexts_append]
      refine run_document (P := fun _ => True) blanks hblanks hblank ?_ ?_
      · obtain ⟨mid, hrun, hmid⟩ := item.run_held hitem hblank (state.pass blanks)
          (hheld.of_passed hpass) (hpass.rearm.trans hrearm) (doc.print ++ rest)
        exact ⟨mid, hrun, hmid, trivial⟩
      · intro mid hmid _
        exact doc.run_held hdoc mid [] (hheld.of_passed hmid) (hmid.rearm.trans hrearm) (by simp)
          hrest

theorem Arguments.run_held (args : Arguments) (hargs : args.WellFormed) (state : State)
    (hheld : Held state) (hrearm : state.rearm = false) {name : String}
    (hpending : state.pending = some name) (rest : Text) :
    ∃ after, run contexts state (args.print ++ rest) = run contexts after rest ∧
      Passed state after args.strip.print (noteTexts args.notes) ∧ after.pending = some name := by
  have hsome : state.pending.isSome = true := by rw [hpending]; rfl
  match args, hargs with
  | .last delimiter body, hbody =>
    obtain ⟨after, hrun, hafter, hname⟩ := run_argument_held hbody
      (fun inner rest h hr ht => body.run_held hbody inner [] h hr (by simp) ht) hheld hrearm
      (fun _ => hsome) rest
    rw [Arguments.strip, Arguments.print, Arguments.print, Arguments.notes, List.cons_append,
      List.append_assoc]
    exact ⟨after, hrun, hafter, hname.trans hpending⟩
  | .more delimiter body args, ⟨hbody, hargs⟩ =>
    obtain ⟨mid, hrun, hmid, hname⟩ := run_argument_held hbody
      (fun inner rest h hr ht => body.run_held hbody inner [] h hr (by simp) ht) hheld hrearm
      (fun _ => hsome) (args.print ++ rest)
    obtain ⟨after, hargsRun, hafter, hlast⟩ := args.run_held hargs mid (hheld.of_passed hmid)
      (hmid.rearm.trans hrearm) (hname.trans hpending) rest
    refine ⟨after, ?_, ?_, hlast⟩
    · rw [← hargsRun, Arguments.print, List.cons_append, List.append_assoc]
      exact hrun
    · simpa [Arguments.strip, Arguments.print, Arguments.notes] using hmid.trans hafter

end

/-! ### The arguments of a restricted command -/

/-- A restricted command holds its argument. -/
theorem hold_openFrame_restricted {name : String} (hname : contexts.classify name = .restricted)
    (hpending : state.pending = some name) (hhold : state.hold = none) (delimiter : Delimiter) :
    (state.openFrame contexts delimiter).hold = some (.frame state.frames.length) := by
  simp [State.openFrame, hhold, hpending, hname]

/-- The closing of the group that is held.  The notes wait if an argument follows, and come right
after the group otherwise. -/
theorem Passed.argument_restricted {delimiter : Delimiter} {text : Text} {notes : List Text}
    (h : Passed ((state.openFrame contexts delimiter).emit [delimiter.left]) mid text notes)
    (hopen : (state.openFrame contexts delimiter).hold = some (.frame state.frames.length))
    (rest : Text) :
    ∃ after, run contexts mid (delimiter.right :: rest) = run contexts after rest ∧
      after.frames = state.frames ∧ after.envs = state.envs ∧ after.hold = none ∧
      after.pending = state.pending ∧
      if State.argumentFollows rest then
        after.stash = state.stash ++ notes ∧
        after.output = state.output ++ delimiter.left :: (text ++ [delimiter.right])
      else
        after.rearm = false ∧ after.stash = [] ∧
        after.output = state.output ++ (delimiter.left :: (text ++ [delimiter.right]) ++
          (state.stash ++ notes).flatten) := by
  have hframes : mid.frames = ⟨delimiter, state.pending, state.offset⟩ :: state.frames := h.frames
  have hhold : (mid.emit [delimiter.right]).hold = some (.frame state.frames.length) :=
    h.hold.trans hopen
  have hstash : mid.stash = state.stash ++ notes := h.stash
  have houtput : (mid.emit [delimiter.right]).output =
      state.output ++ delimiter.left :: (text ++ [delimiter.right]) := by
    rw [State.output_emit, h.output, State.output_emit, List.append_assoc, List.append_assoc]
    rfl
  refine ⟨_, run_right hframes rfl h.rearm rest, ?_⟩
  rw [State.closeFrame_of_hold hhold]
  by_cases hfollows : State.argumentFollows rest = true
  · rw [if_pos hfollows, if_pos hfollows]
    exact ⟨rfl, h.envs, rfl, rfl, hstash, houtput⟩
  · rw [if_neg hfollows, if_neg hfollows]
    refine ⟨rfl, h.envs, rfl, rfl, h.rearm, rfl, ?_⟩
    rw [State.output_flush, ← hstash, ← List.append_assoc]
    exact congrArg (· ++ _) houtput

/-- An argument of a restricted command.  Its notes wait if another argument follows, and come
right after it otherwise. -/
theorem run_argument_restricted {delimiter : Delimiter} {body : Document} (hbody : body.WellFormed)
    {name : String} (hname : contexts.classify name = .restricted)
    (hpending : state.pending = some name) (hhold : state.hold = none) (rest : Text) :
    ∃ after, run contexts state (delimiter.left :: (body.print ++ delimiter.right :: rest)) =
        run contexts after rest ∧
      after.frames = state.frames ∧ after.envs = state.envs ∧ after.hold = none ∧
      after.pending = some name ∧
      if State.argumentFollows rest then
        after.stash = state.stash ++ noteTexts body.notes ∧
        after.output = state.output ++ delimiter.left :: (body.strip.print ++ [delimiter.right])
      else
        after.rearm = false ∧ after.stash = [] ∧
        after.output = state.output ++ (delimiter.left :: (body.strip.print ++ [delimiter.right]) ++
          (state.stash ++ noteTexts body.notes).flatten) := by
  have hopen := hold_openFrame_restricted hname hpending hhold delimiter
  have hinner : Held ((state.openFrame contexts delimiter).emit [delimiter.left]) :=
    .of_frame hopen (Nat.lt_succ_self _)
  obtain ⟨mid, hrun, hmid⟩ := body.run_held hbody _ [] hinner rfl (by simp)
    (terminal_right delimiter rest)
  obtain ⟨after, hright, hafter⟩ := hmid.argument_restricted hopen rest
  rw [hpending] at hafter
  refine ⟨after, ?_, hafter⟩
  rw [← hright, run_left fun hbracket => ⟨by rw [hpending]; rfl, ?_⟩]
  · exact hrun
  · subst hbracket
    exact body.bracketCloses_print hbody (bracketCloses_right rest)

theorem argumentFollows_left (delimiter : Delimiter) (text : Text) :
    State.argumentFollows (delimiter.left :: text) = true := by
  cases delimiter <;> rfl

/-- The arguments of a restricted command are written without their notes, which come right after
the last one if no group follows. -/
theorem Arguments.run_restricted {name : String} (hname : contexts.classify name = .restricted)
    (args : Arguments) (hargs : args.WellFormed) (state : State)
    (hpending : state.pending = some name) (hhold : state.hold = none) {rest : Text}
    (hrest : State.argumentFollows rest = false) :
    ∃ after, run contexts state (args.print ++ rest) = run contexts after rest ∧
      after.frames = state.frames ∧ after.envs = state.envs ∧ after.hold = none ∧
      after.rearm = false ∧ after.stash = [] ∧
      after.output = state.output ++ (args.strip.print ++
        (state.stash ++ noteTexts args.notes).flatten) := by
  match args, hargs with
  | .last delimiter body, hbody =>
    obtain ⟨after, hrun, hframes, henvs, hhold', -, hafter⟩ :=
      @run_argument_restricted contexts state delimiter body hbody name hname hpending hhold rest
    rw [hrest, if_neg Bool.false_ne_true] at hafter
    refine ⟨after, ?_, hframes, henvs, hhold', hafter⟩
    rw [Arguments.print, List.cons_append, List.append_assoc]
    exact hrun
  | .more delimiter body args, ⟨hbody, hargs⟩ =>
    obtain ⟨mid, hrun, hframes, henvs, hhold', hpending', hmid⟩ :=
      @run_argument_restricted contexts state delimiter body hbody name hname hpending hhold
        (args.print ++ rest)
    have hfollows : State.argumentFollows (args.print ++ rest) = true := by
      obtain ⟨next, text, htext⟩ := args.print_append rest
      rw [htext]
      exact argumentFollows_left next text
    rw [if_pos hfollows] at hmid
    obtain ⟨hstash, houtput⟩ := hmid
    obtain ⟨after, hargsRun, hframes', henvs', hhold'', hrearm, hstash', houtput'⟩ :=
      args.run_restricted hname hargs mid hpending' hhold' hrest
    refine ⟨after, ?_, hframes'.trans hframes, henvs'.trans henvs, hhold'', hrearm, hstash', ?_⟩
    · rw [← hargsRun, Arguments.print, List.cons_append, List.append_assoc]
      exact hrun
    · rw [houtput', houtput, hstash, Arguments.strip, Arguments.print, Arguments.notes,
        noteTexts_append]
      simp

/-! ### Documents outside every restricted context -/

/-- No restricted context is open and no note waits. -/
structure Free (state : State) : Prop where
  hold : state.hold = none
  rearm : state.rearm = false
  stash : state.stash = []

/-- No restricted command waits for its argument. -/
def Unrestricted (contexts : Contexts) (state : State) : Prop :=
  ∀ name ∈ state.pending, contexts.classify name ≠ .restricted

theorem unrestricted_of_pending (h : state.pending = none) : Unrestricted contexts state := by
  intro name hname
  rw [h] at hname
  cases hname

theorem Free.of_passed {text : Text} (hp : Passed state after text []) (h : Free state) :
    Free after :=
  ⟨hp.hold.trans h.hold, hp.rearm.trans h.rearm, by rw [hp.stash, h.stash]; rfl⟩

/-- A group opens no restricted context unless its command is restricted. -/
theorem Free.openFrame (h : Free state) (hpending : Unrestricted contexts state)
    (delimiter : Delimiter) : (state.openFrame contexts delimiter).hold = none := by
  have hopener : (state.pending.any fun name => contexts.classify name = .restricted) = false := by
    cases hp : state.pending with
    | none => rfl
    | some name => simpa using hpending name (by rw [hp]; rfl)
  simp only [State.openFrame, h.hold, h.rearm, hopener]
  rfl

/-- A group or argument outside every restricted context, given how runs go over what stands in
it. -/
theorem run_argument_free {delimiter : Delimiter} {body : Document} (hbody : body.WellFormed)
    {text : Text}
    (ih : ∀ (inner : State) (rest : Text), Free inner → Unrestricted contexts inner →
      Terminal rest → ∃ mid, run contexts inner (body.print ++ rest) = run contexts mid rest ∧
        Passed inner mid text [])
    (hfree : Free state) (hrestricted : Unrestricted contexts state)
    (hpending : delimiter = .bracket → state.pending.isSome = true) (rest : Text) :
    ∃ after, run contexts state (delimiter.left :: (body.print ++ delimiter.right :: rest)) =
        run contexts after rest ∧
      Passed state after (delimiter.left :: (text ++ [delimiter.right])) [] ∧
      after.pending = state.pending := by
  have hopen := hfree.openFrame hrestricted delimiter
  have hinner : Free ((state.openFrame contexts delimiter).emit [delimiter.left]) :=
    ⟨hopen, rfl, hfree.stash⟩
  refine run_argument hbody hpending
    (ih _ _ hinner (unrestricted_of_pending rfl) (terminal_right delimiter rest))
    (hopen.trans hfree.hold.symm) ?_ hfree.rearm
  rw [hfree.hold]
  simp

theorem Free.hold_beginEnv (h : Free state) {name : String}
    (hname : contexts.isRestrictedEnvironment name = true) :
    ((state.emit (beginText name)).beginEnv contexts name).hold =
      some (.env state.envs.length) := by
  have hhold : (state.emit (beginText name)).hold = none := h.hold
  simp only [State.beginEnv, hhold, hname]
  rfl

theorem Free.held_beginEnv (h : Free state) {name : String}
    (hname : contexts.isRestrictedEnvironment name = true) :
    Held ((state.emit (beginText name)).beginEnv contexts name) :=
  .of_env (h.hold_beginEnv hname) (Nat.lt_succ_self _)

/-- An environment that is not restricted is outside every restricted context. -/
theorem Free.beginEnv (h : Free state) {name : String}
    (hname : ¬ contexts.isRestrictedEnvironment name = true) :
    Free ((state.emit (beginText name)).beginEnv contexts name) where
  hold := by
    have hhold : (state.emit (beginText name)).hold = none := h.hold
    simp only [State.beginEnv, hhold, hname]
    rfl
  rearm := h.rearm
  stash := h.stash

/-- Behind the name of an environment an argument is one of the command that began it. -/
theorem unrestricted_beginEnv (hbegin : contexts.classify "begin" ≠ .restricted) (name : String) :
    Unrestricted contexts ((state.emit (beginText name)).beginEnv contexts name) := by
  intro other hother
  rw [← Option.mem_some.mp hother]
  exact hbegin

/-- The end of a restricted environment writes the notes that were taken out inside. -/
theorem Passed.environment_restricted {name : String} (hname : EnvironmentName name) {text : Text}
    {notes : List Text}
    (h : Passed ((state.emit (beginText name)).beginEnv contexts name) mid text notes)
    (hbegin : ((state.emit (beginText name)).beginEnv contexts name).hold =
      some (.env state.envs.length)) (hfree : Free state) (rest : Text) :
    ∃ after, run contexts mid (endText name ++ rest) = run contexts after rest ∧
      Passed state after (beginText name ++ (text ++ endText name) ++ notes.flatten) [] ∧
      after.pending = none := by
  have hmidHold : (mid.emit (endText name)).hold = some (.env state.envs.length) :=
    h.hold.trans hbegin
  have hclose : State.closeEnv name (mid.emit (endText name)).envs = state.envs := h.closeEnv
  have hend : (mid.emit (endText name)).endEnv name =
      { (mid.emit (endText name)).flush with
        envs := state.envs, pending := none, hold := none } := by
    rw [State.endEnv_of_hold hmidHold (Nat.le_of_eq (congrArg List.length hclose)), hclose]
    rfl
  refine ⟨_, run_end hname (h.rearm.trans hfree.rearm) rest, ?_, ?_⟩
  · rw [hend]
    refine ⟨h.frames, rfl, hfree.hold.symm, h.rearm, by rw [hfree.stash]; rfl, ?_⟩
    change (mid.emit (endText name)).flush.output = _
    have hstash : (mid.emit (endText name)).stash = notes := by
      change mid.stash = notes
      rw [h.stash]
      change state.stash ++ notes = notes
      rw [hfree.stash, List.nil_append]
    rw [State.output_flush, State.output_emit, hstash, h.output_beginEnv]
    simp
  · rw [hend]

/-- White space keeps a command waiting only if it holds less than two line feeds. -/
theorem unrestricted_pass {blanks : Text}
    (h : Unrestricted contexts state ∨ 2 ≤ blanks.count '\n') :
    Unrestricted contexts (state.pass blanks) := by
  unfold State.pass
  split
  · next hnil =>
    rcases h with h | h
    · exact h
    · rw [hnil] at h
      cases h
  · split
    · exact unrestricted_of_pending rfl
    · next hcount =>
      rcases h with h | h
      · exact h
      · exact absurd h hcount

/-- Whether the character begins an argument. -/
def beginsArgument (c : Char) : Bool :=
  c = '{' || c = '['

theorem argumentFollows_of_stops {text : Text} (h : Stops beginsArgument (skipBlanks text)) :
    State.argumentFollows text = false := by
  unfold State.argumentFollows
  split
  · next c rest heq =>
    rw [heq, stops_cons] at h
    exact h
  · rfl

theorem Terminal.stops_argument {text : Text} (h : Terminal text) : Stops beginsArgument text := by
  intro c hc
  rcases h c hc with rfl | rfl | rfl <;> decide

theorem stops_argument_escape (newline : Bool) (text : Text) :
    Stops beginsArgument (skipBlanksUpTo newline ('\\' :: text)) :=
  stops_cons.mpr (by decide)

/-- Where no bare group follows white space, nothing that could be an argument does; `blanks` is
the part of the white space that was skipped. -/
theorem Document.stops_argument : (doc : Document) → doc.WellFormed → ∀ {blanks : Text},
    doc.Separated blanks → blanks.count '\n' ≤ 1 → ∀ {rest : Text}, Terminal rest →
    Stops beginsArgument (skipBlanksUpTo (blanks.count '\n' = 0) (doc.print ++ rest))
  | .nil, _, blanks, _, _, rest, hrest => by
    rw [Document.print, List.nil_append, skipBlanksUpTo_of_stops hrest.stops]
    exact hrest.stops_argument
  | .cons (.char c) doc, ⟨hc, _, hdoc⟩, blanks, hseparated, hcount, rest, hrest => by
    by_cases hblank : isTexBlank c = true
    · by_cases hnext : (blanks ++ [c]).count '\n' ≤ 1
      · have hskip := skipBlanksUpTo_blank hblank hnext (doc.print ++ rest)
        have hdocStops := doc.stops_argument hdoc (Document.separated_char.mp hseparated hblank) hnext hrest
        rwa [← hskip] at hdocStops
      · -- A second line feed ends the white space before an argument.
        have hnewline : c = '\n' := by
          by_cases heq : c = '\n'
          · exact heq
          · exact absurd (by simpa [heq] using hcount) hnext
        subst hnewline
        rw [List.count_append, List.count_singleton_self] at hnext
        have hone : ¬ blanks.count '\n' = 0 := by omega
        change Stops beginsArgument (skipBlanksUpTo _ ('\n' :: (doc.print ++ rest)))
        simp [skipBlanksUpTo, hone, beginsArgument]
    · rw [Bool.not_eq_true] at hblank
      change Stops beginsArgument (skipBlanksUpTo _ (c :: (doc.print ++ rest)))
      rw [skipBlanksUpTo_of_stops (stops_cons.mpr hblank), stops_cons]
      simp [beginsArgument, hc.left, hc.leftBracket]
  | .cons (.group body) doc, _, blanks, hseparated, hcount, rest, _ => by
    have hle := Document.separated_group.mp hseparated
    omega
  | .cons (.command name args) doc, _, _, _, _, rest, _ => stops_argument_escape _ _
  | .cons (.environment name body) doc, _, _, _, _, rest, _ => stops_argument_escape _ _
  | .cons (.note key body) doc, _, _, _, _, rest, _ => stops_argument_escape _ _

/-- Where no bare group follows, no argument does. -/
theorem Document.argumentFollows_eq_false (doc : Document) (hdoc : doc.WellFormed)
    (hseparated : doc.Separated []) {rest : Text} (hrest : Terminal rest) :
    State.argumentFollows (doc.print ++ rest) = false :=
  argumentFollows_of_stops (doc.stops_argument hdoc hseparated (Nat.zero_le 1) hrest)

mutual

theorem Item.run_free (hbegin : contexts.classify "begin" ≠ .restricted) (item : Item)
    (hitem : item.WellFormed) (hblank : item.isBlank = false) (state : State) (hfree : Free state)
    (hgroup : ∀ body, item = .group body → Unrestricted contexts state) {rest : Text}
    (hrest : item.isCommand = true → State.argumentFollows rest = false) :
    ∃ after, run contexts state (item.print ++ rest) = run contexts after rest ∧
      Passed state after (item.relocate contexts).print [] ∧
      (item.isCommand = false → Unrestricted contexts after) := by
  match item, hitem with
  | .char c, hc =>
    exact ⟨_, run_plain hc hblank hfree.rearm rest, Passed.emit state [c] none,
      fun _ => unrestricted_of_pending rfl⟩
  | .group body, hbody =>
    have hunrestricted := hgroup body rfl
    obtain ⟨after, hrun, hafter, hpending⟩ := @run_argument_free contexts state .brace body hbody _
      (fun inner rest h hu ht => body.run_free hbegin hbody inner [] h (.inl hu) (by simp) ht) hfree
      hunrestricted (by simp) rest
    rw [Item.relocate, Document.print_single, Item.print, Item.print, List.cons_append,
      List.append_assoc]
    refine ⟨after, hrun, hafter, fun _ => ?_⟩
    unfold Unrestricted
    rw [hpending]
    exact hunrestricted
  | .command name args, ⟨hname, hargs⟩ =>
    have hpassed := Passed.emit state ('\\' :: name.toList) (some name)
    have hfree' := hfree.of_passed hpassed
    rw [run_command_args hname hfree.rearm, Item.relocate]
    -- A restricted command has the notes of its arguments behind it, any other keeps them inside.
    by_cases hrestricted : contexts.classify name = .restricted
    · obtain ⟨after, hrun, hframes, henvs, hhold, hrearm, hstash, houtput⟩ :=
        args.run_restricted hrestricted hargs _ rfl hfree'.hold (hrest rfl)
      rw [if_pos hrestricted, Document.print, Item.print, Document.print_ofNotes]
      refine ⟨after, hrun, ⟨hframes, henvs, hhold.trans hfree.hold.symm,
        hrearm.trans hfree.rearm.symm, ?_, ?_⟩, fun h => by cases h⟩
      · rw [hstash, hfree.stash]
        rfl
      · rw [houtput, hpassed.output, hfree'.stash, List.nil_append]
        simp
    · obtain ⟨after, hrun, hafter, -⟩ := args.run_free hbegin hargs _ hfree' hrestricted rfl rest
      rw [if_neg hrestricted, Document.print_single, Item.print]
      exact ⟨after, hrun, hpassed.trans hafter, fun h => by cases h⟩
  | .environment name body, ⟨hname, hbody⟩ =>
    rw [Item.print, List.append_assoc, List.append_assoc, run_begin hname hfree.rearm,
      Item.relocate]
    by_cases hrestricted : contexts.isRestrictedEnvironment name = true
    · obtain ⟨mid, hrun, hmid⟩ := body.run_held hbody _ [] (hfree.held_beginEnv hrestricted)
        hfree.rearm (by simp) (terminal_endText name rest)
      obtain ⟨after, hend, hafter, hpending⟩ :=
        hmid.environment_restricted hname (hfree.hold_beginEnv hrestricted) hfree rest
      rw [if_pos hrestricted, Document.print, Item.print, Document.print_ofNotes]
      exact ⟨after, hrun.trans hend, hafter, fun _ => unrestricted_of_pending hpending⟩
    · have hinner := hfree.beginEnv hrestricted
      obtain ⟨mid, hrun, hmid⟩ := body.run_free hbegin hbody _ [] hinner
        (.inl (unrestricted_beginEnv hbegin name)) (by simp) (terminal_endText name rest)
      obtain ⟨after, hend, hafter, hafterPending⟩ := hmid.environment hname
        (hinner.hold.trans hfree.hold.symm) (by rw [hfree.hold]; simp) hfree.rearm rest
      rw [if_neg hrestricted, Document.print_single, Item.print]
      exact ⟨after, hrun.trans hend, hafter, fun _ => unrestricted_of_pending hafterPending⟩
  | .note key body, ⟨hkey, hbody⟩ =>
    -- Nothing holds notes here, so the note is written where it stands.
    obtain ⟨warnings, hrun⟩ := @run_note_free contexts state key body hkey hbody hfree.rearm
      hfree.hold rest
    rw [Item.relocate, Document.print_single]
    refine ⟨_, hrun, ?_, fun _ => unrestricted_of_pending rfl⟩
    exact ⟨rfl, rfl, rfl, rfl, (List.append_nil _).symm, State.output_emit state _⟩

/-- Outside every restricted context a document is written relocated, and no note waits. -/
theorem Document.run_free (hbegin : contexts.classify "begin" ≠ .restricted) (doc : Document)
    (hdoc : doc.WellFormed) (state : State) (blanks : Text) (hfree : Free state)
    (hseparated : Unrestricted contexts state ∨ doc.Separated blanks)
    (hblanks : ∀ c ∈ blanks, isTexBlank c = true) {rest : Text} (hrest : Terminal rest) :
    ∃ after, run contexts state (blanks ++ (doc.print ++ rest)) = run contexts after rest ∧
      Passed state after (blanks ++ (doc.relocate contexts).print) [] := by
  match doc, hdoc with
  | .nil, _ =>
    refine ⟨_, run_blanks hblanks hrest.stops, ?_⟩
    rw [Document.relocate, Document.print, List.append_nil]
    exact Passed.pass state blanks
  | .cons item doc, ⟨hitem, hcommand, hdoc⟩ =>
    by_cases hblank : item.isBlank = true
    · obtain ⟨c, rfl, hc⟩ := item.eq_char_of_isBlank hblank
      obtain ⟨after, hrun, hafter⟩ := doc.run_free hbegin hdoc state (blanks ++ [c]) hfree
        (hseparated.imp_right fun h => Document.separated_char.mp h hc) (blanks_append hblanks hc) hrest
      rw [List.append_assoc] at hrun hafter
      exact ⟨after, hrun, hafter⟩
    · rw [Bool.not_eq_true] at hblank
      have hpass := Passed.pass state blanks
      have hgroup : ∀ body, item = .group body → Unrestricted contexts (state.pass blanks) := by
        rintro body rfl
        exact unrestricted_pass (hseparated.imp_right Document.separated_group.mp)
      rw [Document.relocate, Document.print_append]
      refine @run_document contexts state item doc _ _ [] []
        (fun mid => item.isCommand = false → Unrestricted contexts mid) blanks hblanks hblank rest
        ?_ ?_
      · exact item.run_free hbegin hitem hblank (state.pass blanks) (hfree.of_passed hpass) hgroup
          fun h => doc.argumentFollows_eq_false hdoc (hcommand h) hrest
      · intro mid hmid hunrestricted
        refine doc.run_free hbegin hdoc mid [] (hfree.of_passed hmid) ?_ (by simp) hrest
        cases hitemCommand : item.isCommand with
        | true => exact .inr (hcommand hitemCommand)
        | false => exact .inl (hunrestricted hitemCommand)

theorem Arguments.run_free (hbegin : contexts.classify "begin" ≠ .restricted) (args : Arguments)
    (hargs : args.WellFormed) (state : State) (hfree : Free state) {name : String}
    (hname : contexts.classify name ≠ .restricted) (hpending : state.pending = some name)
    (rest : Text) :
    ∃ after, run contexts state (args.print ++ rest) = run contexts after rest ∧
      Passed state after (args.relocate contexts).print [] ∧ after.pending = some name := by
  have hsome : state.pending.isSome = true := by rw [hpending]; rfl
  have hunrestricted : Unrestricted contexts state := by
    intro other hother
    rw [hpending, Option.mem_some] at hother
    rwa [← hother]
  match args, hargs with
  | .last delimiter body, hbody =>
    obtain ⟨after, hrun, hafter, hlast⟩ := @run_argument_free contexts state delimiter body hbody _
      (fun inner rest h hu ht => body.run_free hbegin hbody inner [] h (.inl hu) (by simp) ht) hfree
      hunrestricted (fun _ => hsome) rest
    rw [Arguments.relocate, Arguments.print, Arguments.print, List.cons_append, List.append_assoc]
    exact ⟨after, hrun, hafter, hlast.trans hpending⟩
  | .more delimiter body args, ⟨hbody, hargs⟩ =>
    obtain ⟨mid, hrun, hmid, hmidPending⟩ := @run_argument_free contexts state delimiter body hbody _
      (fun inner rest h hu ht => body.run_free hbegin hbody inner [] h (.inl hu) (by simp) ht) hfree
      hunrestricted (fun _ => hsome) (args.print ++ rest)
    obtain ⟨after, hargsRun, hafter, hlast⟩ := args.run_free hbegin hargs mid (hfree.of_passed hmid)
      hname (hmidPending.trans hpending) rest
    refine ⟨after, ?_, ?_, hlast⟩
    · rw [← hargsRun, Arguments.print, List.cons_append, List.append_assoc]
      exact hrun
    · simpa [Arguments.relocate, Arguments.print] using hmid.trans hafter

end

/-- **Relocation.**  On the text of a well-formed tree the pass writes the text of the relocated
tree. -/
theorem relocate_print (hbegin : contexts.classify "begin" ≠ .restricted) (doc : Document)
    (hdoc : doc.WellFormed) :
    (relocate contexts doc.print).result = .ok (doc.relocate contexts).print := by
  have hstart : Free State.start := ⟨rfl, rfl, rfl⟩
  have hterminal : Terminal [] := by simp [Terminal]
  obtain ⟨after, hrun, hafter⟩ := doc.run_free hbegin hdoc .start [] hstart
    (.inl (unrestricted_of_pending rfl)) (by simp) hterminal
  have hend : run contexts after [] = (after, none) := by rw [run]
  rw [List.nil_append, List.append_nil, hend] at hrun
  have hframes : after.frames = [] := hafter.frames
  rw [relocate, hrun]
  simp only [hframes, State.output_flush, hafter.output, hafter.stash]
  simp [State.start, State.output]

/-- Two notes in a caption with two arguments, one of them in a nested command. -/
def captionTree : Document :=
  .cons (.command "caption"
    (.more .bracket (.cons (.note "k".toList "b".toList) (.cons (.char 'a') .nil))
      (.last .brace (.cons (.command "emph"
        (.last .brace (.cons (.note "l".toList "c".toList) .nil))) .nil))))
    (.cons (.char ' ') (.cons (.char 'z') .nil))

theorem wellFormed_captionTree : captionTree.WellFormed := by
  simp only [captionTree, Document.WellFormed, Arguments.WellFormed, Item.WellFormed]
  simp
  decide

theorem relocate_print_captionTree :
    Contexts.standard.classify "begin" ≠ .restricted ∧ captionTree.WellFormed ∧
      (relocate .standard captionTree.print).result = .ok (("\\caption[a]\x7b\\emph\x7b\x7d\x7d" ++
        "\\annot\x7bk\x7d\x7bb\x7d\\annot\x7bl\x7d\x7bc\x7d z").toList) := by
  refine ⟨by decide, wellFormed_captionTree, ?_⟩
  rw [relocate_print (by decide) captionTree wellFormed_captionTree]
  exact congrArg Except.ok (by decide)

end Marginalia.Relocation
