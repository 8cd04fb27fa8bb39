import Marginalia.Proofs.Nesting.Carving
import Marginalia.Proofs.Note

/-! # Running text is inert

What stands in a wrapper is scanned a second time, as the argument of the wrapper.  It must not close a
group or an argument there, shift a table to its next cell, break its line or its paragraph, or begin
mathematics or a comment (`Inactive`).

The segmenter hands out what is left between pieces of markup.  Each step gives a piece of running text
that is quiet (`Quiet`): ordinary characters, control symbols for characters, and control words that may
have an empty group behind them.  Rows of such pieces are quiet, and so are parts of them that are cut
off at white space, as long as no backslash stands before white space, where trimming would part it from
its character (`Legible`).  White space with two line feeds is a part of its own and never running text;
since the part is read as far as it goes, none comes together from two parts (`joins_step`).
-/
namespace Marginalia

open Text Latex

namespace Text

/-- The characters of a text that no backslash stands before. -/
def unescaped : Text → Text
  | [] => []
  | ['\\'] => []
  | '\\' :: _ :: text => unescaped text
  | c :: text => c :: unescaped text

/-- The characters of a text that a backslash stands before. -/
def escaped : Text → Text
  | [] => []
  | ['\\'] => []
  | '\\' :: c :: text => c :: escaped text
  | _ :: text => escaped text

/-- No white space of the text breaks the paragraph. -/
def Flowing (text : Text) : Prop :=
  ∀ run, run <:+: text → (∀ c ∈ run, isTexBlank c = true) → run.count '\n' < 2

end Text

/-- Text that does nothing to what stands around it. -/
structure Inactive (text : Text) : Prop where
  balanced : Balanced text
  unescaped : ∀ c ∈ unescaped text, c ∉ ['&', '$', '%', '[', ']']
  escaped : ∀ c ∈ escaped text, c ∉ ['\\', '(', '[']
  flowing : Flowing text

/-! ### Quiet text -/

/-- Rows of ordinary characters, control symbols for characters, and control words with or without an
empty group behind them. -/
inductive Quiet : Text → Prop
  | nil : Quiet []
  | char {c : Char} {text : Text} (hc : Ordinary c) (h : Quiet text) : Quiet (c :: text)
  | symbol {c : Char} {text : Text} (hc : c.isAlpha = false)
      (hmarkup : Nesting.isMarkupSymbol c = false) (hblank : isBlank c = false) (h : Quiet text) :
      Quiet ('\\' :: c :: text)
  | word {name text : Text} (hne : name ≠ []) (hname : ∀ c ∈ name, c.isAlpha = true)
      (h : Quiet text) : Quiet ('\\' :: (name ++ text))
  | emptyGroup {name text : Text} (hne : name ≠ []) (hname : ∀ c ∈ name, c.isAlpha = true)
      (h : Quiet text) : Quiet ('\\' :: (name ++ '\x7b' :: '\x7d' :: text))

theorem ordinary_of_isAlpha {c : Char} (h : c.isAlpha = true) : Ordinary c := by
  refine ordinary_of_isKeyChar ?_
  rw [isKeyChar, Char.isAlphanum, h, Bool.true_or, Bool.true_or]

/-- Letters behind a backslash are passed over, whatever follows them. -/
theorem Latex.closeGroup_letters {depth : Nat} {name : Text} (hne : name ≠ [])
    (hname : ∀ c ∈ name, c.isAlpha = true) (rest : Text) :
    closeGroup depth ('\\' :: (name ++ rest)) = closeGroup depth rest := by
  cases name with
  | nil => exact absurd rfl hne
  | cons c name =>
    rw [List.cons_append, closeGroup_escape]
    exact closeGroup_append (fun d hd => inert_of_isAlpha (hname d (List.mem_cons_of_mem _ hd))) rest

namespace Text

theorem unescaped_cons {c : Char} (h : c ≠ '\\') (text : Text) :
    unescaped (c :: text) = c :: unescaped text := by
  rw [unescaped]
  · exact fun hc => absurd hc h
  · exact fun _ _ hc => absurd hc h

theorem escaped_cons {c : Char} (h : c ≠ '\\') (text : Text) :
    escaped (c :: text) = escaped text := by
  rw [escaped]
  · exact fun hc => absurd hc h
  · exact fun _ _ hc => absurd hc h

theorem letters_append {name : Text} (h : ∀ c ∈ name, c.isAlpha = true) (text : Text) :
    unescaped (name ++ text) = name ++ unescaped text ∧ escaped (name ++ text) = escaped text := by
  induction name with
  | nil => exact ⟨rfl, rfl⟩
  | cons c name ih =>
    obtain ⟨hc, hname⟩ := List.forall_mem_cons.mp h
    have hescape := (ordinary_of_isAlpha hc).escape
    obtain ⟨hunescaped, hescaped⟩ := ih hname
    rw [List.cons_append, unescaped_cons hescape, escaped_cons hescape, hunescaped, hescaped]
    exact ⟨rfl, rfl⟩

end Text

namespace Quiet

variable {text text' lead front trail : Text}

theorem append (h : Quiet text) (h' : Quiet text') : Quiet (text ++ text') := by
  induction h with
  | nil => exact h'
  | char hc _ ih => exact .char hc ih
  | symbol hc hmarkup hblank _ ih => exact .symbol hc hmarkup hblank ih
  | word hne hname _ ih =>
    rw [List.cons_append, List.append_assoc]
    exact .word hne hname ih
  | emptyGroup hne hname _ ih =>
    rw [List.cons_append, List.append_assoc]
    exact .emptyGroup hne hname ih

theorem blanks {run : Text} (h : ∀ c ∈ run, isTexBlank c = true) : Quiet run := by
  induction run with
  | nil => exact .nil
  | cons c run ih =>
    obtain ⟨hc, hrun⟩ := List.forall_mem_cons.mp h
    exact .char (ordinary_of_isTexBlank hc) (ih hrun)

/-- Quiet text without white space in front is quiet. -/
theorem of_lead (h : Quiet (lead ++ text)) (hlead : ∀ c ∈ lead, isBlank c = true) : Quiet text := by
  induction lead with
  | nil => exact h
  | cons c lead ih =>
    obtain ⟨hc, hlead⟩ := List.forall_mem_cons.mp hlead
    have hescape : c ≠ '\\' := by
      rintro rfl
      exact absurd hc (by decide)
    rw [List.cons_append] at h
    generalize hwhole : c :: (lead ++ text) = whole at h
    cases h with
    | nil => cases hwhole
    | char _ h =>
      obtain ⟨-, rfl⟩ := List.cons.inj hwhole
      exact ih h hlead
    | symbol => exact absurd (List.cons.inj hwhole).1 hescape
    | word => exact absurd (List.cons.inj hwhole).1 hescape
    | emptyGroup => exact absurd (List.cons.inj hwhole).1 hescape

/-- Quiet text without white space behind it is quiet: only characters of the white space itself end in
white space. -/
theorem of_trail (h : Quiet text) (htext : text = front ++ trail)
    (htrail : ∀ c ∈ trail, isBlank c = true) : Quiet front := by
  induction h generalizing front with
  | nil =>
    rw [(List.append_eq_nil_iff.mp htext.symm).1]
    exact .nil
  | @char c text hc _ ih =>
    cases front with
    | nil => exact .nil
    | cons d front =>
      obtain ⟨rfl, hrest⟩ := List.cons.inj htext
      exact .char hc (ih hrest)
  | @symbol c text hc hmarkup hblank _ ih =>
    have hwhole : ['\\'] ++ c :: text = front ++ trail := htext
    obtain ⟨front, rfl, hrest⟩ := split_behind hblank htrail hwhole
    exact .symbol hc hmarkup hblank (ih hrest)
  | @word name text hne hname _ ih =>
    obtain ⟨letters, c, rfl⟩ := (List.eq_nil_or_concat name).resolve_left hne
    have hc : c.isAlpha = true := hname c (by simp)
    have hwhole : '\\' :: letters ++ c :: text = front ++ trail := by simpa using htext
    obtain ⟨front, rfl, hrest⟩ := split_behind (isBlank_of_isAlpha hc) htrail hwhole
    have hquiet := Quiet.word hne hname (ih hrest)
    simpa using hquiet
  | @emptyGroup name text hne hname _ ih =>
    have hwhole : '\\' :: (name ++ ['\x7b']) ++ '\x7d' :: text = front ++ trail := by
      simpa using htext
    obtain ⟨front, rfl, hrest⟩ := split_behind (by decide) htrail hwhole
    rw [List.cons_append, List.append_assoc]
    exact .emptyGroup hne hname (ih hrest)

theorem balanced (h : Quiet text) : Balanced text := by
  induction h with
  | nil => exact balanced_nil
  | @char c text hc _ ih =>
    have hone : ∀ d ∈ [c], Inert d := by simpa using hc.toInert
    exact (balanced_of_inert hone).append ih
  | @symbol c text hc _ _ _ ih => exact (balanced_symbol hc).append ih
  | word hne hname _ ih =>
    intro depth rest hdepth
    rw [List.cons_append, List.append_assoc, closeGroup_letters hne hname, ih depth rest hdepth]
  | @emptyGroup name text hne hname _ ih =>
    intro depth rest hdepth
    have hgroup : Balanced ('\x7b' :: '\x7d' :: text) := balanced_nil.group.append ih
    rw [List.cons_append, List.append_assoc, closeGroup_letters hne hname, hgroup depth rest hdepth]

/-- The characters of quiet text that no backslash stands before. -/
theorem of_mem_unescaped (h : Quiet text) {c : Char} (hc : c ∈ unescaped text) :
    Ordinary c ∨ c = '\x7b' ∨ c = '\x7d' := by
  have hword {name rest : Text} (hne : name ≠ []) (hname : ∀ c ∈ name, c.isAlpha = true)
      (hc : c ∈ unescaped ('\\' :: (name ++ rest))) : Ordinary c ∨ c ∈ unescaped rest := by
    cases name with
    | nil => exact absurd rfl hne
    | cons d name =>
      have hletters := (List.forall_mem_cons.mp hname).2
      rw [List.cons_append, unescaped, (letters_append hletters rest).1] at hc
      rcases List.mem_append.mp hc with hc | hc
      · exact .inl (ordinary_of_isAlpha (hletters c hc))
      · exact .inr hc
  induction h with
  | nil => cases hc
  | char hd _ ih =>
    rw [unescaped_cons hd.escape] at hc
    rcases List.mem_cons.mp hc with rfl | hc
    · exact .inl hd
    · exact ih hc
  | symbol _ _ _ _ ih =>
    rw [unescaped] at hc
    exact ih hc
  | word hne hname _ ih =>
    rcases hword hne hname hc with hc | hc
    · exact .inl hc
    · exact ih hc
  | emptyGroup hne hname _ ih =>
    rcases hword hne hname hc with hc | hc
    · exact .inl hc
    · rw [unescaped_cons (by decide), unescaped_cons (by decide)] at hc
      rcases List.mem_cons.mp hc with rfl | hc
      · exact .inr (.inl rfl)
      rcases List.mem_cons.mp hc with rfl | hc
      · exact .inr (.inr rfl)
      · exact ih hc

/-- The characters of quiet text that a backslash stands before. -/
theorem of_mem_escaped (h : Quiet text) {c : Char} (hc : c ∈ escaped text) :
    Nesting.isMarkupSymbol c = false := by
  have hword {name rest : Text} (hne : name ≠ []) (hname : ∀ c ∈ name, c.isAlpha = true)
      (hc : c ∈ escaped ('\\' :: (name ++ rest))) :
      Nesting.isMarkupSymbol c = false ∨ c ∈ escaped rest := by
    cases name with
    | nil => exact absurd rfl hne
    | cons d name =>
      obtain ⟨hd, hletters⟩ := List.forall_mem_cons.mp hname
      rw [List.cons_append, escaped, (letters_append hletters rest).2] at hc
      rcases List.mem_cons.mp hc with rfl | hc
      · refine .inl ((Bool.not_eq_true _).mp fun hmarkup => ?_)
        simp only [Nesting.isMarkupSymbol, Bool.or_eq_true, beq_iff_eq] at hmarkup
        rcases hmarkup with (rfl | rfl) | rfl <;> exact absurd hd (by decide)
      · exact .inr hc
  induction h with
  | nil => cases hc
  | char hd _ ih =>
    rw [escaped_cons hd.escape] at hc
    exact ih hc
  | symbol _ hmarkup _ _ ih =>
    rw [escaped] at hc
    rcases List.mem_cons.mp hc with rfl | hc
    · exact hmarkup
    · exact ih hc
  | word hne hname _ ih =>
    rcases hword hne hname hc with hc | hc
    · exact hc
    · exact ih hc
  | emptyGroup hne hname _ ih =>
    rcases hword hne hname hc with hc | hc
    · exact hc
    · rw [escaped_cons (by decide), escaped_cons (by decide)] at hc
      exact ih hc

/-- Quiet text that does not break the paragraph does nothing to what stands around it. -/
theorem inactive (h : Quiet text) (hflowing : Flowing text) : Inactive text := by
  refine ⟨h.balanced, ?_, ?_, hflowing⟩
  · intro c hc hspecial
    simp only [List.mem_cons, List.not_mem_nil, or_false] at hspecial
    rcases h.of_mem_unescaped hc with hordinary | rfl | rfl
    · rcases hspecial with rfl | rfl | rfl | rfl | rfl
      · exact hordinary.ampersand rfl
      · exact hordinary.dollar rfl
      · exact hordinary.comment rfl
      · exact hordinary.leftBracket rfl
      · exact hordinary.rightBracket rfl
    · exact absurd hspecial (by decide)
    · exact absurd hspecial (by decide)
  · intro c hc hspecial
    have hmarkup := h.of_mem_escaped hc
    simp only [List.mem_cons, List.not_mem_nil, or_false] at hspecial
    rcases hspecial with rfl | rfl | rfl <;> exact absurd hmarkup (by decide)

end Quiet

/-! ### White space that does not break the paragraph -/

namespace Text

variable {text text' piece : Text}

theorem Flowing.of_part (h : Flowing text') (hpart : text <:+: text') : Flowing text :=
  fun run hrun hblank => h run (hrun.trans hpart) hblank

/-- A character that is no white space parts what stands on its two sides. -/
theorem Flowing.cons {c : Char} (h : Flowing text) (hc : isTexBlank c = false) :
    Flowing (c :: text) := by
  intro run hrun hblank
  rcases List.infix_cons_iff.mp hrun with hfront | hpart
  · cases run with
    | nil => exact Nat.zero_lt_two
    | cons d run =>
      obtain ⟨rfl, -⟩ := List.cons_prefix_cons.mp hfront
      rw [hblank d List.mem_cons_self] at hc
      cases hc
  · exact h run hpart hblank

theorem Flowing.append (h : Flowing text) (hpiece : ∀ c ∈ piece, isTexBlank c = false) :
    Flowing (piece ++ text) := by
  induction piece with
  | nil => exact h
  | cons c piece ih =>
    obtain ⟨hc, hpiece⟩ := List.forall_mem_cons.mp hpiece
    exact (ih hpiece).cons hc

/-- White space that is read as far as it goes is not joined by the white space behind it. -/
theorem Flowing.blanks (h : Flowing text) (hcount : piece.count '\n' < 2)
    (hstops : Stops isTexBlank text) : Flowing (piece ++ text) := by
  intro run hrun hblank
  rcases List.infix_append_iff.mp hrun with hpart | hpart | ⟨left, right, rfl, hleft, hright⟩
  · exact (hpart.count_le '\n').trans_lt hcount
  · exact h run hpart hblank
  · cases right with
    | nil =>
      rw [List.append_nil]
      exact (hleft.count_le '\n').trans_lt hcount
    | cons c right =>
      obtain ⟨rest, rfl⟩ := hright
      have hc : isTexBlank c = true := hblank c (List.mem_append_right left List.mem_cons_self)
      rw [List.cons_append, stops_cons, hc] at hstops
      cases hstops

end Text

/-! ### What the steps give -/

/-- Running text in the midst of what the steps over a text give. -/
structure Calm (text : Text) : Prop where
  quiet : Quiet text
  flowing : Flowing text

theorem calm_nil : Calm [] := by
  refine ⟨.nil, fun run hrun _ => ?_⟩
  rw [List.infix_nil.mp hrun]
  exact Nat.zero_lt_two

theorem isTexBlank_of_isBlank_eq_false {c : Char} (h : isBlank c = false) : isTexBlank c = false := by
  refine (Bool.not_eq_true _).mp fun hblank => ?_
  rw [isBlank_of_isTexBlank hblank] at h
  cases h

theorem trimmable_calm : Segment.Trimmable Calm where
  lead hblank h := ⟨h.quiet.of_lead hblank, h.flowing.of_part List.infix_append_right⟩
  trail hblank h := ⟨h.quiet.of_trail rfl hblank, h.flowing.of_part List.infix_append_left⟩

namespace Segmenter

variable {state : Segmenter} {text rest : Text} {c : Char}

/-- What the step read is running text together with running text behind it. -/
def Step.Joins (read : Step) : Prop :=
  ∀ text, text <+: read.rest → Calm text → Calm (read.piece ++ text)

theorem Step.joins_of_visible {read : Step} (hquiet : Quiet read.piece)
    (hvisible : ∀ c ∈ read.piece, isTexBlank c = false) : read.Joins :=
  fun _ _ h => ⟨hquiet.append h.quiet, h.flowing.append hvisible⟩

/-- What stands behind a backslash is a character that is no white space. -/
def isVisible (next? : Option Char) : Bool :=
  next?.any fun c => !isBlank c

theorem joins_glyph {name : String} (hne : name ≠ "") (hletters : ∀ c ∈ name.toList, c.isAlpha = true) :
    (Step.mk false (upTo ('\\' :: (name.toList ++ rest)) (dropEmptyGroup rest))
      (dropEmptyGroup rest) state).Joins := by
  have hname : name.toList ≠ [] := fun heq => hne (String.toList_eq_nil_iff.mp heq)
  have hvisible : ∀ c ∈ '\\' :: name.toList, isTexBlank c = false := by
    refine List.forall_mem_cons.mpr ⟨by decide, fun c hc => ?_⟩
    exact isTexBlank_of_isBlank_eq_false (isBlank_of_isAlpha (hletters c hc))
  unfold dropEmptyGroup
  split
  · next after =>
    have hpiece : upTo ('\\' :: (name.toList ++ '{' :: '}' :: after)) after =
        '\\' :: (name.toList ++ ['{', '}']) := by
      rw [← upTo_append_right ('\\' :: (name.toList ++ ['{', '}'])) after]
      simp
    rw [hpiece]
    refine Step.joins_of_visible (.emptyGroup hname hletters .nil) ?_
    intro c hc
    rw [← List.cons_append] at hc
    rcases List.mem_append.mp hc with hc | hc
    · exact hvisible c hc
    · rcases List.mem_pair.mp hc with rfl | rfl <;> decide
  · rw [← List.cons_append, upTo_append_right]
    refine Step.joins_of_visible ?_ hvisible
    have hquiet := Quiet.word hname hletters .nil
    rwa [List.append_nil] at hquiet

theorem joins_control (hnext : isVisible text.head? = true) (h : (control state text).isMarkup = false) :
    (control state text).Joins := by
  obtain ⟨-, hcases⟩ := control_of_running h
  rcases readControl_cases text with ⟨name, rest, hword, rfl, hne, hletters, -⟩ |
    ⟨d, rest, hsymbol, rfl, hd⟩ | ⟨-, rfl⟩
  · rcases hcases with ⟨_, _, hread, -, hcontrol⟩ | ⟨_, _, hread, -⟩ | ⟨_, hread, -⟩
    · cases hword.symm.trans hread
      rw [hcontrol]
      exact joins_glyph hne hletters
    · cases hword.symm.trans hread
    · cases hword.symm.trans hread
  · rcases hcases with ⟨_, _, hread, -⟩ | ⟨_, _, hread, hescape, hparen, hbracket, hcontrol⟩ |
      ⟨_, hread, -⟩
    · cases hsymbol.symm.trans hread
    · cases hsymbol.symm.trans hread
      have hblank : isBlank d = false := by simpa [isVisible] using hnext
      have hmarkup : Nesting.isMarkupSymbol d = false := by
        simp [Nesting.isMarkupSymbol, hescape, hparen, hbracket]
      have hpiece : upTo ('\\' :: d :: rest) rest = ['\\', d] := upTo_append_right ['\\', d] rest
      rw [hcontrol, hpiece]
      refine Step.joins_of_visible (.symbol hd hmarkup hblank .nil) ?_
      intro c hc
      rcases List.mem_pair.mp hc with rfl | rfl
      · decide
      · exact isTexBlank_of_isBlank_eq_false hblank
    · cases hsymbol.symm.trans hread
  · cases hnext

/-- **A piece of running text is calm**, and stays so with the running text behind it. -/
theorem joins_step (hnext : c = '\\' → isVisible text.head? = true)
    (h : (step state c text).isMarkup = false) : (step state c text).Joins := by
  unfold step at h ⊢
  split at h
  · exact joins_control (hnext rfl) h
  · cases h
  · cases h
  · cases h
  · cases h
  · cases h
  · cases h
  · rw [isMarkup_dollar] at h
    cases h
  · next hescape hleft hright hrightBracket hampersand hleftBracket hcomment hdollar =>
    have hordinary : Ordinary c :=
      ⟨⟨⟨hescape, hleft, hright, hcomment⟩, hleftBracket, hrightBracket⟩, hdollar, hampersand⟩
    by_cases hblank : isTexBlank c = true
    · rw [if_pos hblank] at h ⊢
      have hcount : (c :: text.takeWhile isTexBlank).count '\n' < 2 := by simpa using h
      have hrun : ∀ d ∈ c :: text.takeWhile isTexBlank, isTexBlank d = true :=
        List.forall_mem_cons.mpr ⟨hblank, List.all_eq_true.mp List.all_takeWhile⟩
      intro after hafter hcalm
      obtain ⟨rest, hrest⟩ := hafter
      have hdrop : text.dropWhile isTexBlank = after ++ rest := hrest.symm
      have hstops : Stops isTexBlank after := stops_of_append (hdrop ▸ stops_dropWhile isTexBlank text)
      exact ⟨(Quiet.blanks hrun).append hcalm.quiet, hcalm.flowing.blanks hcount hstops⟩
    · rw [if_neg hblank]
      refine Step.joins_of_visible (.char hordinary .nil) ?_
      simpa using hblank

/-- What stands behind the backslashes that the steps over a text read. -/
def escapes (state : Segmenter) (text : Text) : List (Option Char) :=
  match text with
  | [] => []
  | c :: text =>
    let read := step state c text
    if c = '\\' then text.head? :: escapes read.state read.rest else escapes read.state read.rest
termination_by text.length
decreasing_by all_goals exact Nat.lt_succ_of_le (reads_step state c text).length_le

/-- No backslash that is read as a control sequence stands before white space or at the end. -/
def Legible (state : Segmenter) (text : Text) : Prop :=
  ∀ next? ∈ escapes (resume state text).state (resume state text).rest, isVisible next? = true

/-- Running text among the parts of a text is calm once they are joined. -/
theorem calm_merge_parts (h : ∀ next? ∈ escapes state text, isVisible next? = true) :
    Segment.OnText Calm (Segment.merge (parts state text).1) := by
  fun_induction parts state text with
  | case1 => simp [Segment.OnText, Segment.merge]
  | case2 state c text read after ih =>
    have hstep : (c = '\\' → isVisible text.head? = true) ∧
        ∀ next? ∈ escapes read.state read.rest, isVisible next? = true := by
      rw [escapes] at h
      by_cases hc : c = '\\'
      · rw [if_pos hc] at h
        exact ⟨fun _ => h _ List.mem_cons_self, fun _ hmem => h _ (List.mem_cons_of_mem _ hmem)⟩
      · rw [if_neg hc] at h
        exact ⟨fun heq => absurd heq hc, h⟩
    have hrest : Segment.texts (Segment.merge after.1) = read.rest := by
      rw [Segment.texts_merge]
      exact texts_parts read.state read.rest
    refine (ih hstep.2).join calm_nil ?_
    intro hkind text' hfront hcalm
    rw [hrest] at hfront
    refine joins_step hstep.1 ?_ text' hfront hcalm
    refine (Bool.not_eq_true _).mp fun hmarkup => hkind ?_
    exact if_pos hmarkup

/-- **Wrapped text is inert.**  Whatever is open before a region, its running text can stand in a wrapper:
a scan over groups passes over it; none of its characters is special unless a backslash stands before it;
it breaks no line and begins no mathematics; and none of its white space breaks the paragraph.  This
needs that no backslash of the region stands before white space, as white space at the edges of running
text is cut off. -/
theorem inactive_of_mem_split (state : Segmenter) {text : Text} (h : Legible state text) :
    ∀ segment ∈ (state.split text).1, segment.kind ≠ .markup → Inactive segment.text := by
  have hmerged : Segment.OnText Calm (Segment.merge
      ((resume state text).segment state :: (parts (resume state text).state
        (resume state text).rest).1)) := by
    refine (calm_merge_parts h).join calm_nil fun hkind => absurd ?_ hkind
    rw [Step.segment, isMarkup_resume]
    rfl
  intro segment hmem hkind
  have hcalm := Segment.onText_ofParts trimmable_calm hmerged segment hmem hkind
  exact hcalm.quiet.inactive hcalm.flowing

/-- Running text inside a bracketed argument that is still open, before mathematics and a paragraph
break. -/
theorem inactive_of_mem_split_shielded :
    let state : Segmenter := ⟨.text, [0]⟩
    let text := "a\\ss\x7b\x7d \\& b $x$ c\n \nd".toList
    let shielded : List Text := ["a\\ss\x7b\x7d \\& b ".toList, " c".toList, "d".toList]
    state.Legible text ∧
      ((state.split text).1.filter fun segment => segment.kind = .shielded).map Segment.text = shielded ∧
      ∀ segment ∈ (state.split text).1, segment.kind ≠ .markup → Inactive segment.text := by
  intro state text shielded
  have hlegible : state.Legible text := by
    unfold Legible
    decide +kernel
  exact ⟨hlegible, by decide +kernel, inactive_of_mem_split state hlegible⟩

end Segmenter

end Marginalia
