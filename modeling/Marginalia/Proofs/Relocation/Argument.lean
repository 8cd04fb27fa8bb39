import Marginalia.Proofs.Relocation.Bracket

/-! # Notes between two arguments

Notes that were taken out of an argument of a restricted command wait while the arguments of the command
go on.  Two mechanisms tell whether they do.  When the argument closes, a look-ahead over white space
decides whether the notes wait on or are released (`ClosesHeld.cases`).  Later, the command waits for its
next argument through white space and comments, and a group that opens there is one (`Carries`, `Opens`).

The look-ahead does not pass over comments, so the two disagree behind them: the notes are released in
front of the comment, and then the next argument opens.  Nowhere else do they disagree
(`ClosesHeld.stash_eq_nil_iff`), so notes stay out of the middle of a command exactly if no comment is
the first thing between two of its arguments (`undivided_iff`).
-/
namespace Marginalia.Relocation

open Text Latex

variable {contexts : Contexts} {state closed later after : State} {lexeme : Lexeme}
  {piece text rest left : Text} {command : String}

/-- The command that waits for an argument still does behind the lexeme, and no group opens or closes. -/
def Lexeme.KeepsPending (lexeme : Lexeme) : Prop :=
  ∀ (skeleton : Skeleton) (closes : Bool), skeleton.act lexeme closes = some skeleton

/-- From the state, on the text, the pass comes to the state `later` and the text `left` with the same
command waiting for its argument. -/
inductive Carries (contexts : Contexts) : State → Text → State → Text → Prop
  | refl (state : State) (text : Text) : Carries contexts state text state text
  | step {state mid later : State} {c : Char} {text rest left : Text}
      (hkeeps : (read c text).1.KeepsPending)
      (hstep : Relocation.step contexts state c text = .next mid rest)
      (hcarries : Carries contexts mid rest later left) : Carries contexts state (c :: text) later left

/-- The next step opens a group for the command. -/
def Opens (contexts : Contexts) (state : State) (text : Text) (command : String) : Prop :=
  ∃ c tail after rest delimiter offset, text = c :: tail ∧
    step contexts state c tail = .next after rest ∧
    after.frames = ⟨delimiter, some command, offset⟩ :: state.frames

/-- The command that waits in the state gets a further argument; the group opens in the state `later`. -/
def NextArgument (contexts : Contexts) (command : String) (state : State) (text : Text)
    (later : State) : Prop :=
  ∃ left, Carries contexts state text later left ∧ Opens contexts later left command

/-- The step behind the state closes an argument of the command while notes taken out of it wait; no
restricted context is open around it. -/
structure ClosesHeld (contexts : Contexts) (text : Text) (command : String) (state closed : State)
    (rest : Text) : Prop where
  step : ∃ c tail, Reaches contexts .start text state (c :: tail) ∧
    Relocation.step contexts state c tail = .next closed rest
  frame : ∃ delimiter offset, state.frames = ⟨delimiter, some command, offset⟩ :: closed.frames
  hold : state.hold = some (.frame closed.frames.length)
  waits : state.stash ≠ []

/-- No note is put between two arguments of a command: when another group of the command opens, what was
taken out of the argument before still waits. -/
def Undivided (contexts : Contexts) (text : Text) : Prop :=
  ∀ command state closed rest later, ClosesHeld contexts text command state closed rest →
    NextArgument contexts command closed rest later → later.stash ≠ []

/-! ### The look-ahead -/

/-- The look-ahead passes over white space that does not break the paragraph. -/
theorem Begins.skipBlanks_eq (h : Begins (.blanks false) piece rest) :
    skipBlanks (piece ++ rest) = skipBlanks rest := by
  obtain ⟨hrun, hrest, hparagraph⟩ := h.blanks
  have hcount : piece.count '\n' ≤ 1 := by
    have hfew := of_decide_eq_false hparagraph.symm
    omega
  have hskip : skipBlanks (piece ++ rest) = rest := @skipBlanksUpTo_run [] piece rest hrun hcount hrest
  rw [hskip]
  exact (skipBlanksUpTo_of_stops hrest true).symm

theorem Begins.argumentFollows_eq (h : Begins (.blanks false) piece rest) :
    State.argumentFollows (piece ++ rest) = State.argumentFollows rest := by
  unfold State.argumentFollows
  rw [h.skipBlanks_eq]

/-- A comment hides an argument from the look-ahead. -/
theorem argumentFollows_of_comment (h : (skipBlanks text).head? = some '%') :
    State.argumentFollows text = false := by
  unfold State.argumentFollows
  cases hskip : skipBlanks text with
  | nil => rfl
  | cons c rest =>
    rw [hskip, List.head?_cons] at h
    obtain rfl := Option.some.inj h
    rfl

theorem Begins.comment_head (h : Begins .comment piece rest) :
    (skipBlanks (piece ++ rest)).head? = some '%' := by
  cases h.lexes ⟨by simp, by simp, by simp⟩ <;> rfl

/-! ### Closing, carrying, opening -/

/-- Only comments, and white space that does not break the paragraph, stand between two arguments. -/
theorem Lexeme.keepsPending_iff : lexeme.KeepsPending ↔ lexeme = .comment ∨ lexeme = .blanks false := by
  constructor
  · intro h
    have hwaiting := h ⟨[], [], some "a"⟩ false
    cases lexeme with
    | comment => exact .inl rfl
    | blanks paragraph =>
      cases paragraph with
      | false => exact .inr rfl
      | true => cases hwaiting
    | command name => cases h Skeleton.start false
    | left delimiter => cases delimiter <;> cases hwaiting
    | right delimiter => cases delimiter <;> cases hwaiting
    | _ => cases hwaiting
  · rintro (rfl | rfl) skeleton closes
    · rfl
    · rfl

/-- What a step has read, and what it does to the groups that are open. -/
theorem exists_act_of_step {c : Char} {tail : Text}
    (h : step contexts state c tail = .next after rest) :
    ∃ lexeme piece, tail = piece ++ rest ∧ Begins lexeme (c :: piece) rest ∧
      (state.settle c).act contexts lexeme (c :: piece) rest = .next after rest ∧
      state.skeleton.act lexeme (bracketCloses rest) = some after.skeleton := by
  obtain ⟨lexeme, piece, htail, hbegins, hact⟩ := exists_begins_of_step h
  refine ⟨lexeme, piece, htail, hbegins, hact, ?_⟩
  rcases act_skeleton contexts (state.settle c) lexeme (c :: piece) rest with
    ⟨next, hnext, hskeleton⟩ | ⟨⟨error, herror⟩, -⟩
  · obtain ⟨rfl, -⟩ := Step.next.inj (hact.symm.trans hnext)
    rwa [State.skeleton_settle] at hskeleton
  · cases hact.symm.trans herror

namespace Skeleton

variable {skeleton mid : Skeleton} {closes : Bool}

/-- Only an opening delimiter opens a group. -/
theorem exists_left (h : skeleton.act lexeme closes = some mid)
    (hmore : skeleton.closing.length < mid.closing.length) : ∃ delimiter, lexeme = .left delimiter := by
  rcases act_cases h with ⟨rfl, -⟩ | ⟨rfl, -⟩ | ⟨delimiter, -, heq⟩ | ⟨-, heq, -⟩ | ⟨-, -, heq⟩
  · exact ⟨.brace, rfl⟩
  · exact ⟨.bracket, rfl⟩
  · rw [heq, List.length_cons] at hmore
    omega
  · rw [heq] at hmore
    omega
  · rw [heq] at hmore
    omega

/-- Only a closing delimiter closes a group. -/
theorem exists_right (h : skeleton.act lexeme closes = some mid)
    (hless : mid.closing.length < skeleton.closing.length) : ∃ delimiter, lexeme = .right delimiter := by
  rcases act_cases h with ⟨-, heq⟩ | ⟨-, -, -, heq⟩ | ⟨delimiter, rfl, -⟩ | ⟨rfl, -⟩ | ⟨-, -, heq⟩
  · rw [heq, List.length_cons] at hless
    omega
  · rw [heq, List.length_cons] at hless
    omega
  · exact ⟨delimiter, rfl⟩
  · exact ⟨.bracket, rfl⟩
  · rw [heq] at hless
    omega

end Skeleton

theorem State.length_closing (state : State) : state.skeleton.closing.length = state.frames.length := by
  rw [Skeleton.closing, State.skeleton, List.length_map, List.length_map]

/-- A group opens with a brace or a bracket. -/
theorem Opens.argumentFollows (h : Opens contexts state text command) :
    State.argumentFollows text = true := by
  obtain ⟨c, tail, after, rest, delimiter, offset, rfl, hstep, hframes⟩ := h
  obtain ⟨lexeme, piece, rfl, hbegins, -, hskeleton⟩ := exists_act_of_step hstep
  have hmore : state.skeleton.closing.length < after.skeleton.closing.length := by
    rw [State.length_closing, State.length_closing, hframes]
    exact Nat.lt_succ_self _
  obtain ⟨opened, rfl⟩ := Skeleton.exists_left hskeleton hmore
  obtain ⟨rfl, rfl⟩ := List.cons.inj hbegins.left_eq
  cases opened <;> rfl

/-- **What the look-ahead decides**: if an argument follows, what was taken out waits on, and otherwise it
is released. -/
theorem ClosesHeld.cases (h : ClosesHeld contexts text command state closed rest) :
    (State.argumentFollows rest = true ∧ closed.stash = state.stash) ∨
    State.argumentFollows rest = false ∧ closed.stash = [] ∧ closed.rearm = false := by
  obtain ⟨⟨c, tail, hreaches, hstep⟩, ⟨delimiter, offset, hframes⟩, hhold, -⟩ := h
  have hsound : Sound state (c :: tail) := hreaches.sound (sound_start text)
  have hrearm : state.rearm = false := hsound.rearm_eq_false (by rw [hhold]; rfl)
  obtain ⟨lexeme, piece, rfl, hbegins, hact, hskeleton⟩ := exists_act_of_step hstep
  have hless : closed.skeleton.closing.length < state.skeleton.closing.length := by
    rw [State.length_closing, State.length_closing, hframes]
    exact Nat.lt_succ_self _
  obtain ⟨right, rfl⟩ := Skeleton.exists_right hskeleton hless
  rw [State.settle_of_not_rearm hrearm, State.act, close, hframes] at hact
  dsimp only at hact
  by_cases hopened : delimiter = right
  · rw [if_pos hopened] at hact
    have hclosed := (Step.next.inj hact).1
    rw [State.closeFrame_of_hold (show (state.emit [right.right]).hold = _ from hhold)] at hclosed
    by_cases hfollows : State.argumentFollows rest = true
    · rw [if_pos hfollows] at hclosed
      refine .inl ⟨hfollows, ?_⟩
      rw [← hclosed]
      rfl
    · rw [if_neg hfollows] at hclosed
      refine .inr ⟨(Bool.not_eq_true _).mp hfollows, ?_, ?_⟩
      · rw [← hclosed]
        rfl
      · rw [← hclosed]
        exact hrearm
  · rw [if_neg hopened] at hact
    split at hact
    · cases hact
    · -- A bracket that closes no group leaves the groups as they are.
      have hsame : closed.frames = state.frames := by
        rw [← (Step.next.inj hact).1]
        rfl
      have hlength := congrArg List.length (hsame.trans hframes)
      rw [List.length_cons] at hlength
      omega

/-- While the command waits and its argument follows, the notes wait too. -/
theorem Carries.waits (h : Carries contexts state text later left)
    (hfollows : State.argumentFollows text = true) : later.stash = state.stash := by
  induction h with
  | refl => rfl
  | step hkeeps hstep _ ih =>
    obtain ⟨lexeme, piece, rfl, hbegins, hact⟩ := exists_begins_of_step hstep
    rw [hbegins.read_eq rfl] at hkeeps
    rcases Lexeme.keepsPending_iff.mp hkeeps with rfl | rfl
    · -- The look-ahead stops at a comment, so it has not seen an argument.
      have hnone := argumentFollows_of_comment hbegins.comment_head
      rw [List.cons_append, hfollows] at hnone
      cases hnone
    · rw [State.settle_of_blank (hbegins.blanks.1 _ List.mem_cons_self)] at hact
      rw [← List.cons_append, hbegins.argumentFollows_eq] at hfollows
      rw [ih hfollows, ← (Step.next.inj hact).1]
      rfl

/-- Once the notes are released, none waits. -/
theorem Carries.released (h : Carries contexts state text later left) (hstash : state.stash = [])
    (hrearm : state.rearm = false) : later.stash = [] := by
  induction h with
  | refl => exact hstash
  | step hkeeps hstep _ ih =>
    obtain ⟨lexeme, piece, rfl, hbegins, hact⟩ := exists_begins_of_step hstep
    rw [State.settle_of_not_rearm hrearm] at hact
    rw [hbegins.read_eq rfl] at hkeeps
    rcases Lexeme.keepsPending_iff.mp hkeeps with rfl | rfl
    all_goals
      obtain ⟨rfl, -⟩ := Step.next.inj hact
      exact ih hstash hrearm

/-- An argument that the look-ahead does not see has a comment in front of it. -/
theorem NextArgument.cases (h : NextArgument contexts command state text later) :
    State.argumentFollows text = true ∨ (skipBlanks text).head? = some '%' := by
  obtain ⟨left, hcarries, hopens⟩ := h
  induction hcarries with
  | refl => exact .inl hopens.argumentFollows
  | step hkeeps hstep _ ih =>
    obtain ⟨lexeme, piece, rfl, hbegins, -⟩ := exists_begins_of_step hstep
    rw [hbegins.read_eq rfl] at hkeeps
    rw [← List.cons_append]
    rcases Lexeme.keepsPending_iff.mp hkeeps with rfl | rfl
    · exact .inr hbegins.comment_head
    · rw [hbegins.argumentFollows_eq, hbegins.skipBlanks_eq]
      exact ih hopens

/-- **Notes are released before the next argument** exactly if a comment comes first behind the argument
before. -/
theorem ClosesHeld.stash_eq_nil_iff (h : ClosesHeld contexts text command state closed rest)
    (hnext : NextArgument contexts command closed rest later) :
    later.stash = [] ↔ (skipBlanks rest).head? = some '%' := by
  have hseen := hnext.cases
  obtain ⟨left, hcarries, -⟩ := hnext
  rcases h.cases with ⟨hfollows, hstash⟩ | ⟨hfollows, hstash, hrearm⟩
  · have hwaits : later.stash ≠ [] := by
      rw [hcarries.waits hfollows, hstash]
      exact h.waits
    have hhead : (skipBlanks rest).head? ≠ some '%' := by
      intro hcomment
      rw [argumentFollows_of_comment hcomment] at hfollows
      cases hfollows
    exact ⟨fun hnil => absurd hnil hwaits, fun hcomment => absurd hcomment hhead⟩
  · have hhead : (skipBlanks rest).head? = some '%' := by
      refine hseen.resolve_left ?_
      rw [hfollows]
      decide
    exact ⟨fun _ => hhead, fun _ => hcarries.released hstash hrearm⟩

/-- **No note is put between two arguments of a command if and only if** no comment comes first behind an
argument that notes were taken out of when another argument follows. -/
theorem undivided_iff (contexts : Contexts) (text : Text) :
    Undivided contexts text ↔
      ∀ command state closed rest later, ClosesHeld contexts text command state closed rest →
        NextArgument contexts command closed rest later → (skipBlanks rest).head? ≠ some '%' := by
  constructor
  · intro h command state closed rest later hcloses hnext hcomment
    exact h command state closed rest later hcloses hnext
      ((hcloses.stash_eq_nil_iff hnext).mpr hcomment)
  · intro h command state closed rest later hcloses hnext hnil
    exact h command state closed rest later hcloses hnext
      ((hcloses.stash_eq_nil_iff hnext).mp hnil)

-- White space alone keeps the note waiting for the second argument.
example : (relocate .standard ("\\texorpdfstring\x7b".toList ++ (noteText ['k'] ['b'] ++
      "a\x7d \n\x7bb\x7d".toList))).result =
    .ok ("\\texorpdfstring\x7ba\x7d \n\x7bb\x7d".toList ++ noteText ['k'] ['b']) := by
  decide +kernel

/-- A note in the first argument of a command, and a comment between its two arguments. -/
def divided : Text :=
  '\\' :: ("texorpdfstring".toList ++ '{' ::
    (noteText ['k'] ['b'] ++ 'a' :: '}' :: '%' :: '\n' :: '{' :: ['b', '}']))

/-- The note is put between the two arguments. -/
def dividedOut : Text :=
  '\\' :: ("texorpdfstring".toList ++ '{' ::
    'a' :: '}' :: (noteText ['k'] ['b'] ++ '%' :: '\n' :: '{' :: ['b', '}']))

/-- **Not every text that passes is left undivided.** -/
theorem not_undivided : ¬ ∀ (contexts : Contexts) (text out : Text),
    (relocate contexts text).result = .ok out → Undivided contexts text := by
  intro h
  have hname : CommandName "texorpdfstring" := by decide
  have hkey : ∀ c ∈ ['k'], Inert c := by decide
  have hbody : ∀ c ∈ ['b'], Inert c := by decide
  have hout : (relocate .standard divided).result = .ok dividedOut := by decide +kernel
  have hcommand := (@Reaches.refl .standard .start divided).reads
    (Lexes.command hname (stops_cons.mpr (by decide))).begins rfl rfl
  have hleft := hcommand.reads (@Lexes.left .brace _).begins rfl rfl
  have hnote := hleft.reads (lexes_noteText hkey hbody).begins rfl rfl
  have hplain := hnote.reads (@Lexes.plain 'a' _ (by decide) (by decide)).begins rfl rfl
  have hstep := hplain.reads (@Lexes.right .brace _).begins rfl rfl
  refine h .standard divided dividedOut hout "texorpdfstring" _ _ _ _
    ⟨⟨_, _, hplain, rfl⟩, ⟨.brace, _, rfl⟩, rfl, ?_⟩
    ⟨_, .step (Lexeme.keepsPending_iff.mpr (.inl rfl)) rfl (.refl _ _),
      _, _, _, _, .brace, _, rfl, rfl, rfl⟩ rfl
  exact List.cons_ne_nil _ _

end Marginalia.Relocation
