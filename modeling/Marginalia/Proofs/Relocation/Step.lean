import Marginalia.Proofs.Scan
import Marginalia.Relocation

/-! # Runs over known pieces

What the relocation pass does with a piece of text whose shape is known: a plain character, a run
of white space, an opening or a closing delimiter, a command, a note, the beginning or the end of
an environment.  Each lemma `run_…` says how a run over the piece and what follows it goes on
after the piece.
-/
namespace Marginalia

open Text Latex

namespace Relocation

variable {contexts : Contexts} {state : State}

/-! ### Steps -/

theorem run_nil (state : State) : run contexts state [] = (state, none) := by
  rw [run]

theorem run_cons {c : Char} {text rest : Text} {after : State}
    (h : step contexts state c text = .next after rest) :
    run contexts state (c :: text) = run contexts after rest := by
  rw [run]
  split
  · next s r heq =>
    rw [h, Step.next.injEq] at heq
    rw [heq.1, heq.2]
  · next e heq =>
    rw [h] at heq
    cases heq

theorem run_failed {c : Char} {text : Text} {error : BoundaryError}
    (h : step contexts state c text = .failed error) :
    run contexts state (c :: text) = (state, some error) := by
  rw [run]
  split
  · next heq =>
    rw [h] at heq
    cases heq
  · next heq =>
    rw [h, Step.failed.injEq] at heq
    rw [heq]

namespace State

@[simp] theorem output_emit (state : State) (piece : Text) :
    (state.emit piece).output = state.output ++ piece := by
  simp [output, emit]

@[simp] theorem output_flush (state : State) :
    state.flush.output = state.output ++ state.stash.flatten := by
  simp [output, flush]

theorem settle_of_not_rearm (h : state.rearm = false) (c : Char) : state.settle c = state := by
  rw [settle, h]
  rfl

theorem settle_of_blank {c : Char} (h : isTexBlank c = true) : state.settle c = state := by
  simp [settle, h]

theorem closeFrame_of_ne {frame : Frame} {outer : List Frame}
    (h : state.hold ≠ some (.frame outer.length)) (rest : Text) :
    state.closeFrame frame outer rest =
      { state with frames := outer, pending := frame.opener } := by
  unfold closeFrame
  dsimp only
  rw [if_neg h]

theorem closeFrame_of_hold {frame : Frame} {outer : List Frame}
    (h : state.hold = some (.frame outer.length)) (rest : Text) :
    state.closeFrame frame outer rest =
      if argumentFollows rest then
        { state with frames := outer, pending := frame.opener, hold := none, rearm := true }
      else
        ({ state with frames := outer, pending := frame.opener, hold := none } : State).flush := by
  unfold closeFrame
  dsimp only
  rw [if_pos h]

theorem endEnv_of_hold {env : String} {depth : Nat} (hhold : state.hold = some (.env depth))
    (hdepth : (closeEnv env state.envs).length ≤ depth) :
    state.endEnv env =
      { ({ state with envs := closeEnv env state.envs, pending := none } : State).flush with
        hold := none } := by
  unfold endEnv
  simp only [hhold, hdepth, if_true]

theorem endEnv_of_open {env : String}
    (h : ∀ depth, state.hold = some (.env depth) → depth < (closeEnv env state.envs).length) :
    state.endEnv env = { state with envs := closeEnv env state.envs, pending := none } := by
  unfold endEnv
  dsimp only
  split
  · next depth hhold => rw [if_neg (Nat.not_le.mpr (h depth hhold))]
  · rfl

/-- The end of an environment lets go of the environment that is held, or leaves it open. -/
theorem endEnv_cases (state : State) (env : String) :
    (∃ depth, state.hold = some (.env depth) ∧
      state.endEnv env =
        { ({ state with envs := closeEnv env state.envs, pending := none } : State).flush with
          hold := none }) ∨
    ((∀ depth, state.hold = some (.env depth) → depth < (closeEnv env state.envs).length) ∧
      state.endEnv env = { state with envs := closeEnv env state.envs, pending := none }) := by
  by_cases hopen : ∀ depth, state.hold = some (.env depth) →
      depth < (closeEnv env state.envs).length
  · exact .inr ⟨hopen, endEnv_of_open hopen⟩
  · obtain ⟨depth, hclosed⟩ := Classical.not_forall.mp hopen
    obtain ⟨hhold, hdepth⟩ := Classical.not_imp.mp hclosed
    exact .inl ⟨depth, hhold, endEnv_of_hold hhold (Nat.not_lt.mp hdepth)⟩

end State

theorem step_plain {c : Char} (h : Plain c) (text : Text) :
    step contexts state c text =
      if isTexBlank c then
        .next (if 2 ≤ (c :: text.takeWhile isTexBlank).count '\n' then
            ((state.settle c).emit (c :: text.takeWhile isTexBlank)).awaiting none
          else (state.settle c).emit (c :: text.takeWhile isTexBlank)) (text.dropWhile isTexBlank)
      else .next (((state.settle c).emit [c]).awaiting none) text := by
  obtain ⟨⟨_, _, _, _⟩, _, _⟩ := h
  unfold step
  dsimp only
  split
  any_goals contradiction
  rfl

theorem run_plain {c : Char} (h : Plain c) (hblank : isTexBlank c = false)
    (hrearm : state.rearm = false) (text : Text) :
    run contexts state (c :: text) = run contexts ((state.emit [c]).awaiting none) text := by
  refine run_cons ?_
  rw [step_plain h, hblank, State.settle_of_not_rearm hrearm]
  rfl

/-- The state after a run of white space. -/
def State.pass (state : State) (blanks : Text) : State :=
  if blanks = [] then state
  else if 2 ≤ blanks.count '\n' then (state.emit blanks).awaiting none
  else state.emit blanks

theorem run_blanks {blanks : Text} (hblanks : ∀ c ∈ blanks, isTexBlank c = true) {text : Text}
    (htext : Stops isTexBlank text) :
    run contexts state (blanks ++ text) = run contexts (state.pass blanks) text := by
  cases blanks with
  | nil => rfl
  | cons c blanks =>
    have hc : isTexBlank c = true := hblanks c List.mem_cons_self
    obtain ⟨htake, hdrop⟩ :=
      takeWhile_append_stop (fun d hd => hblanks d (List.mem_cons_of_mem _ hd)) htext
    rw [List.cons_append]
    refine run_cons ?_
    rw [step_plain (plain_of_isTexBlank hc), if_pos hc, State.settle_of_blank hc, htake, hdrop,
      State.pass, if_neg (List.cons_ne_nil c blanks)]

/-! ### Groups and arguments -/

/-- The character that opens an argument. -/
def Delimiter.left : Delimiter → Char
  | .brace => '{'
  | .bracket => '['

/-- The character that closes an argument. -/
def Delimiter.right : Delimiter → Char
  | .brace => '}'
  | .bracket => ']'

/-- A brace opens a group anywhere; a bracket opens an argument behind a command, if it closes. -/
theorem run_left {delimiter : Delimiter} {text : Text}
    (h : delimiter = .bracket → state.pending.isSome = true ∧ BracketCloses text) :
    run contexts state (delimiter.left :: text) =
      run contexts ((state.openFrame contexts delimiter).emit [delimiter.left]) text := by
  have hsettle : state.settle delimiter.left = state := by
    cases delimiter <;> simp [State.settle, Delimiter.left]
  refine run_cons ?_
  unfold step
  rw [hsettle]
  cases delimiter with
  | brace => rfl
  | bracket =>
    obtain ⟨hpending, hclose⟩ := h rfl
    have hread := hclose.readBracket?
    simp only [Delimiter.left, hpending, hread, Bool.and_self, if_true]

theorem run_right {delimiter : Delimiter} {frame : Frame} {outer : List Frame}
    (hframes : state.frames = frame :: outer) (hdelimiter : frame.delimiter = delimiter)
    (hrearm : state.rearm = false) (text : Text) :
    run contexts state (delimiter.right :: text) =
      run contexts ((state.emit [delimiter.right]).closeFrame frame outer text) text := by
  have hstep : step contexts state delimiter.right text =
      close state delimiter delimiter.right text := by
    unfold step
    rw [State.settle_of_not_rearm hrearm]
    cases delimiter <;> rfl
  refine run_cons ?_
  rw [hstep, close, hframes]
  dsimp only
  rw [if_pos hdelimiter]

/-! ### Control words -/

/-- The name of a command that the pass gives no meaning of its own. -/
structure CommandName (name : String) : Prop where
  nonempty : name ≠ ""
  letters : ∀ c ∈ name.toList, c.isAlpha = true
  verb : name ≠ "verb"
  annot : name ≠ "annot"
  begin : name ≠ "begin"
  «end» : name ≠ "end"

instance (name : String) : Decidable (CommandName name) :=
  decidable_of_iff (name ≠ "" ∧ (∀ c ∈ name.toList, c.isAlpha = true) ∧ name ≠ "verb" ∧
      name ≠ "annot" ∧ name ≠ "begin" ∧ name ≠ "end")
    ⟨fun ⟨h₁, h₂, h₃, h₄, h₅, h₆⟩ => ⟨h₁, h₂, h₃, h₄, h₅, h₆⟩,
      fun ⟨h₁, h₂, h₃, h₄, h₅, h₆⟩ => ⟨h₁, h₂, h₃, h₄, h₅, h₆⟩⟩

/-- The name of an environment whose body is read. -/
structure EnvironmentName (name : String) : Prop where
  inert : ∀ c ∈ name.toList, Inert c
  blank : ∀ c ∈ name.toList, isBlank c = false
  verbatim : ∀ env : Verbatim, env.name ≠ name.toList

theorem run_word {name : String} (hne : name ≠ "") (hletters : ∀ c ∈ name.toList, c.isAlpha = true)
    {rest after : Text} {next : State} (hrest : Stops Char.isAlpha rest)
    (hverbatim : Verbatim.begins? ('\\' :: (name.toList ++ rest)) = none)
    (hrearm : state.rearm = false)
    (hword : word contexts state ('\\' :: (name.toList ++ rest)) name rest = .next next after) :
    run contexts state ('\\' :: (name.toList ++ rest)) = run contexts next after := by
  refine run_cons ?_
  simp only [step, State.settle_of_not_rearm hrearm, control, hverbatim,
    readControl_word hne hletters hrest, hword]

theorem run_command {name : String} (hname : CommandName name) (delimiter : Delimiter)
    (hrearm : state.rearm = false) (text : Text) :
    run contexts state ('\\' :: (name.toList ++ delimiter.left :: text)) =
      run contexts ((state.emit ('\\' :: name.toList)).awaiting (some name))
        (delimiter.left :: text) := by
  have hrest : Stops Char.isAlpha (delimiter.left :: text) := by
    rw [stops_cons]
    cases delimiter <;> decide
  refine run_word hname.nonempty hname.letters hrest
    (Verbatim.begins?_word hname.letters hname.begin hrest) hrearm ?_
  have hupTo : upTo ('\\' :: (name.toList ++ delimiter.left :: text)) (delimiter.left :: text) =
      '\\' :: name.toList := by
    rw [← List.cons_append, upTo_append_right]
  have hword (whole : Text) : word contexts state whole name (delimiter.left :: text) =
      .next ((state.emit (upTo whole (delimiter.left :: text))).awaiting (some name))
        (delimiter.left :: text) := by
    unfold word
    rw [if_neg hname.verb, if_neg hname.annot,
      if_neg (fun h => h.elim hname.begin hname.«end»)]
    cases delimiter <;> rfl
  rw [hword, hupTo]

/-! ### Notes -/

/-- The text of a note. -/
def noteText (key body : Text) : Text :=
  '\\' :: ("annot".toList ++ '{' :: (key ++ '}' :: '{' :: (body ++ ['}'])))

theorem noteEnd?_append {key body : Text} (hkey : ∀ c ∈ key, Inert c) (hbody : ∀ c ∈ body, Inert c)
    (rest : Text) : noteEnd? ('{' :: (key ++ '}' :: '{' :: (body ++ '}' :: rest))) = some rest := by
  have hskip (t : Text) : skipBlanks ('{' :: t) = '{' :: t := rfl
  rw [noteEnd?, hskip, readGroup?_append hkey]
  dsimp only
  rw [hskip, readGroup?_append hbody]
  rfl

theorem noteText_append (key body rest : Text) : noteText key body ++ rest =
    '\\' :: ("annot".toList ++ ('{' :: (key ++ '}' :: '{' :: (body ++ '}' :: rest)))) := by
  rw [noteText]
  simp only [List.cons_append, List.append_assoc, List.nil_append]

theorem run_annot {key body : Text}
    (hrearm : state.rearm = false) {rest : Text} {next : State}
    (hnext : word contexts state (noteText key body ++ rest) "annot"
      ('{' :: (key ++ '}' :: '{' :: (body ++ '}' :: rest))) = .next next rest) :
    run contexts state (noteText key body ++ rest) = run contexts next rest := by
  have hrest : Stops Char.isAlpha ('{' :: (key ++ '}' :: '{' :: (body ++ '}' :: rest))) :=
    stops_cons.mpr (by decide)
  have hletters : ∀ c ∈ "annot".toList, c.isAlpha = true := by decide
  rw [noteText_append] at hnext ⊢
  exact run_word (by decide) hletters hrest (Verbatim.begins?_word hletters (by decide) hrest) hrearm
    hnext

/-- Outside every restricted context a note is copied. -/
theorem run_note_free {key body : Text} (hkey : ∀ c ∈ key, Inert c) (hbody : ∀ c ∈ body, Inert c)
    (hrearm : state.rearm = false) (hhold : state.hold = none) (rest : Text) :
    ∃ warnings, run contexts state (noteText key body ++ rest) =
      run contexts ((({ state with warnings } : State).emit (noteText key body)).awaiting none)
        rest := by
  cases hunknown : state.unknownContext? contexts with
  | none =>
    refine ⟨state.warnings, run_annot hrearm ?_⟩
    unfold word
    rw [if_neg (by decide), if_pos rfl, noteEnd?_append hkey hbody]
    simp only [hhold, hunknown, upTo_append_right, Option.isSome_none, Bool.false_eq_true,
      if_false]
    rw [← hhold]
  | some command =>
    refine ⟨.noteInUnclassified command state.offset :: state.warnings,
      run_annot hrearm ?_⟩
    unfold word
    rw [if_neg (by decide), if_pos rfl, noteEnd?_append hkey hbody]
    simp only [hhold, hunknown, upTo_append_right, Option.isSome_none, Bool.false_eq_true,
      if_false]

/-- In a restricted context a note is taken out. -/
theorem run_note_held {key body : Text} (hkey : ∀ c ∈ key, Inert c) (hbody : ∀ c ∈ body, Inert c)
    (hrearm : state.rearm = false) (hhold : state.hold.isSome = true) (rest : Text) :
    run contexts state (noteText key body ++ rest) =
      run contexts ((state.lift (noteText key body)).awaiting none) rest := by
  refine run_annot hrearm ?_
  unfold word
  rw [if_neg (by decide), if_pos rfl, noteEnd?_append hkey hbody]
  simp only [hhold, upTo_append_right, if_true]

theorem closeGroup_noteText {depth : Nat} (hdepth : 1 ≤ depth) {key body : Text}
    (hkey : ∀ c ∈ key, Inert c) (hbody : ∀ c ∈ body, Inert c) (rest : Text) :
    closeGroup depth (noteText key body ++ rest) = closeGroup depth rest := by
  rw [noteText_append, closeGroup_word (by decide) (by decide) (stops_cons.mpr (by decide)),
    closeGroup_group hdepth hkey, closeGroup_group hdepth hbody]

theorem bracketCloses_noteText {key body rest : Text} (hkey : ∀ c ∈ key, Inert c)
    (hbody : ∀ c ∈ body, Inert c) (h : BracketCloses rest) :
    BracketCloses (noteText key body ++ rest) := by
  rw [noteText_append]
  exact .word (by decide) (by decide) (stops_cons.mpr (by decide)) ((h.inertGroup hbody).inertGroup hkey)

/-! ### Environments -/

/-- The text that begins an environment. -/
def beginText (name : String) : Text :=
  '\\' :: ("begin".toList ++ '{' :: (name.toList ++ ['}']))

/-- The text that ends an environment. -/
def endText (name : String) : Text :=
  '\\' :: ("end".toList ++ '{' :: (name.toList ++ ['}']))

theorem beginText_append (name : String) (rest : Text) : beginText name ++ rest =
    '\\' :: ("begin".toList ++ '{' :: (name.toList ++ '}' :: rest)) := by
  rw [beginText]
  simp only [List.cons_append, List.append_assoc, List.nil_append]

theorem endText_append (name : String) (rest : Text) : endText name ++ rest =
    '\\' :: ("end".toList ++ '{' :: (name.toList ++ '}' :: rest)) := by
  rw [endText]
  simp only [List.cons_append, List.append_assoc, List.nil_append]

theorem trim_of_not_blank {word : Text} (h : ∀ c ∈ word, isBlank c = false) : trim word = word := by
  have hdrop : ∀ t : Text, (∀ c ∈ t, isBlank c = false) → t.dropWhile isBlank = t := by
    intro t ht
    cases t with
    | nil => rfl
    | cons c t => rw [List.dropWhile_cons_of_neg (by simp [ht c List.mem_cons_self])]
  rw [trim, trimEnd, trimStart, hdrop word h, hdrop word.reverse (by simpa using h),
    List.reverse_reverse]

theorem environmentName?_append {name : String} (hname : EnvironmentName name) (rest : Text) :
    environmentName? ('{' :: (name.toList ++ '}' :: rest)) = some (name, rest) := by
  have hskip : skipBlanks ('{' :: (name.toList ++ '}' :: rest)) = '{' :: (name.toList ++ '}' :: rest) :=
    rfl
  rw [environmentName?, hskip, readGroup?_append hname.inert, Option.map_some]
  dsimp only
  rw [trim_of_not_blank hname.blank, String.ofList_toList]

theorem run_begin {name : String} (hname : EnvironmentName name) (hrearm : state.rearm = false)
    (rest : Text) :
    run contexts state (beginText name ++ rest) =
      run contexts ((state.emit (beginText name)).beginEnv contexts name) rest := by
  have hletters : ∀ c ∈ "begin".toList, c.isAlpha = true := by decide
  have hword : word contexts state (beginText name ++ rest) "begin"
      ('{' :: (name.toList ++ '}' :: rest)) =
        .next ((state.emit (beginText name)).beginEnv contexts name) rest := by
    unfold word
    rw [if_neg (by decide), if_neg (by decide), if_pos (.inl rfl),
      environmentName?_append hname]
    simp only [upTo_append_right, if_true]
  rw [beginText_append] at hword ⊢
  exact run_word (by decide) hletters (stops_cons.mpr (by decide))
    (Verbatim.begins?_environment hname.inert hname.verbatim rest) hrearm hword

theorem run_end {name : String} (hname : EnvironmentName name) (hrearm : state.rearm = false)
    (rest : Text) :
    run contexts state (endText name ++ rest) =
      run contexts ((state.emit (endText name)).endEnv name) rest := by
  have hletters : ∀ c ∈ "end".toList, c.isAlpha = true := by decide
  have hrest : Stops Char.isAlpha ('{' :: (name.toList ++ '}' :: rest)) := stops_cons.mpr (by decide)
  have hword : word contexts state (endText name ++ rest) "end"
      ('{' :: (name.toList ++ '}' :: rest)) =
        .next ((state.emit (endText name)).endEnv name) rest := by
    unfold word
    rw [if_neg (by decide), if_neg (by decide), if_pos (.inr rfl),
      environmentName?_append hname]
    simp only [upTo_append_right]
    rfl
  rw [endText_append] at hword ⊢
  exact run_word (by decide) hletters hrest (Verbatim.begins?_word hletters (by decide) hrest) hrearm
    hword

theorem closeGroup_beginText {depth : Nat} (hdepth : 1 ≤ depth) {name : String}
    (hname : EnvironmentName name) (rest : Text) :
    closeGroup depth (beginText name ++ rest) = closeGroup depth rest := by
  rw [beginText_append, closeGroup_word (by decide) (by decide) (stops_cons.mpr (by decide)),
    closeGroup_group hdepth hname.inert]

theorem closeGroup_endText {depth : Nat} (hdepth : 1 ≤ depth) {name : String}
    (hname : EnvironmentName name) (rest : Text) :
    closeGroup depth (endText name ++ rest) = closeGroup depth rest := by
  rw [endText_append, closeGroup_word (by decide) (by decide) (stops_cons.mpr (by decide)),
    closeGroup_group hdepth hname.inert]

theorem bracketCloses_beginText {name : String} (hname : EnvironmentName name) {rest : Text}
    (h : BracketCloses rest) : BracketCloses (beginText name ++ rest) := by
  rw [beginText_append]
  exact .word (by decide) (by decide) (stops_cons.mpr (by decide)) (h.inertGroup hname.inert)

theorem bracketCloses_endText {name : String} (hname : EnvironmentName name) {rest : Text}
    (h : BracketCloses rest) : BracketCloses (endText name ++ rest) := by
  rw [endText_append]
  exact .word (by decide) (by decide) (stops_cons.mpr (by decide)) (h.inertGroup hname.inert)

end Relocation

end Marginalia
