import Marginalia.Proofs.Nesting.Basic

/-! # The pass over atoms that nest

The relocation pass opens a bracket only if it closes in the text, and which bracket closes it may
change with every bracket that is written into the text later.  It never opens a bracket that
`nest` does not, and what it has open is what `nest` has open, less some brackets (`Fits`).

A step of the pass reads one or more atoms and keeps this so (`advances`).  By induction over the
atoms that are left, the pass comes to the end of a text whose atoms nest (`reaches_of_nest`), and
accepts it (`relocate_ok_of_nest`).
-/
namespace Marginalia

open Text Latex Relocation

/-- The second list is the first less some brackets. -/
inductive Thinned : List Delimiter → List Delimiter → Prop
  | nil : Thinned [] []
  | keep (delimiter : Delimiter) {groups frames : List Delimiter} (h : Thinned groups frames) :
      Thinned (delimiter :: groups) (delimiter :: frames)
  | drop {groups frames : List Delimiter} (h : Thinned groups frames) :
      Thinned (.bracket :: groups) frames

theorem Thinned.of_nil {frames : List Delimiter} (h : Thinned [] frames) : frames = [] := by
  cases h with
  | nil => rfl

theorem Thinned.refl (groups : List Delimiter) : Thinned groups groups := by
  induction groups with
  | nil => exact .nil
  | cons delimiter groups ih => exact .keep delimiter ih

/-- No brace is left out. -/
theorem Thinned.of_brace {groups frames : List Delimiter} (h : Thinned (.brace :: groups) frames) :
    ∃ inner, frames = .brace :: inner ∧ Thinned groups inner := by
  cases h with
  | keep _ h => exact ⟨_, rfl, h⟩

theorem Thinned.contains_brace {groups frames : List Delimiter} (h : Thinned groups frames) :
    frames.contains .brace = groups.contains .brace := by
  induction h with
  | nil => rfl
  | keep delimiter _ ih => rw [List.contains_cons, List.contains_cons, ih]
  | drop _ ih => exact ih

/-- One more bracket may be left out. -/
theorem Thinned.tail {groups frames : List Delimiter} (h : Thinned groups (.bracket :: frames)) :
    Thinned groups frames := by
  generalize heq : Delimiter.bracket :: frames = all at h
  induction h with
  | nil => cases heq
  | keep delimiter h _ =>
    obtain ⟨rfl, rfl⟩ := List.cons.inj heq
    exact .drop h
  | drop _ ih => exact .drop (ih heq)

/-- A run of the pass has no more open than `nest` has, and no command waits for an argument where
a bracket would be none. -/
structure Fits (nesting : Nesting) (skeleton : Skeleton) : Prop where
  frames : Thinned nesting.groups (skeleton.frames.map Prod.fst)
  pending : nesting.isReady = false → skeleton.pending = none

theorem fits_start : Fits .start .start :=
  ⟨.nil, fun _ => rfl⟩

/-- A step of the pass reads the first of the atoms, and `nest` goes on behind them. -/
def Advances (skeleton : Skeleton) (atoms : List Atom) (last : Nesting) : Prop :=
  ∃ lexeme piece back next mid, back <:+ atoms ∧ spell atoms = piece ++ spell back ∧
    Begins lexeme piece (spell back) ∧
    skeleton.act lexeme (bracketCloses (spell back)) = some mid ∧ Fits next mid ∧
    next.nest back = some last

namespace Nesting

variable {nesting next last : Nesting} {skeleton mid : Skeleton} {atom : Atom} {atoms : List Atom}

/-- A step that reads one atom. -/
theorem advances_atom {lexeme : Lexeme} (next : Nesting) (mid : Skeleton)
    (hbegins : Begins lexeme atom.toText (spell atoms))
    (hact : skeleton.act lexeme (bracketCloses (spell atoms)) = some mid) (hfits : Fits next mid)
    (hnest : next.nest atoms = some last) : Advances skeleton (atom :: atoms) last :=
  ⟨lexeme, atom.toText, atoms, next, mid, List.suffix_cons atom atoms, rfl, hbegins, hact, hfits,
    hnest⟩

/-! ### Delimiters -/

theorem advances_left {isLit : Bool} (hfits : Fits nesting skeleton)
    (hnest : nesting.nest (.char isLit '\x7b' :: atoms) = some last) :
    Advances skeleton (.char isLit '\x7b' :: atoms) last :=
  advances_atom ⟨.brace :: nesting.groups, false⟩ (skeleton.openFrame .brace)
    (@Lexes.left .brace (spell atoms)).begins rfl ⟨.keep .brace hfits.frames, fun _ => rfl⟩ hnest

theorem advances_leftBracket {isLit : Bool} (h : WellSpelled (.char isLit '[' :: atoms))
    (hfits : Fits nesting skeleton) (hnest : nesting.nest (.char isLit '[' :: atoms) = some last) :
    Advances skeleton (.char isLit '[' :: atoms) last := by
  have hbegins := (@Lexes.left .bracket (spell atoms)).begins
  by_cases hopens : (skeleton.pending.isSome && bracketCloses (spell atoms)) = true
  · -- What the pass opens, `nest` opens too.
    obtain ⟨hpending, hcloses⟩ := Bool.and_eq_true_iff.mp hopens
    have hready : nesting.isReady = true := by
      refine (Bool.not_eq_false _).mp fun heq => ?_
      rw [hfits.pending heq] at hpending
      cases hpending
    have hmay : mayClose 0 atoms = true := by
      refine (Bool.not_eq_false _).mp fun heq => ?_
      exact not_closes h.2 heq ((closes_zero_iff (spell atoms)).mpr hcloses)
    have hread : nesting.readChar (mayClose 0 atoms) isLit '[' =
        some ⟨.bracket :: nesting.groups, false⟩ := by
      change some (Nesting.mk (if _ then _ else _) false) = _
      rw [if_pos (Bool.and_eq_true_iff.mpr ⟨hready, hmay⟩)]
    rw [nest_cons, Nesting.read, hread] at hnest
    refine advances_atom ⟨.bracket :: nesting.groups, false⟩ (skeleton.openFrame .bracket) hbegins
      ?_ ⟨.keep .bracket hfits.frames, fun _ => rfl⟩ hnest
    rw [Skeleton.act, if_pos hopens]
  · refine advances_atom _ (skeleton.awaiting none) hbegins ?_ ⟨?_, fun _ => rfl⟩ hnest
    · rw [Skeleton.act, if_neg hopens]
    · dsimp only
      split
      · exact .drop hfits.frames
      · exact hfits.frames

theorem advances_right {isLit : Bool} (hfits : Fits nesting skeleton)
    (hnest : nesting.nest (.char isLit '\x7d' :: atoms) = some last) :
    Advances skeleton (.char isLit '\x7d' :: atoms) last := by
  obtain ⟨groups, isReady⟩ := nesting
  obtain ⟨frames, envs, pending⟩ := skeleton
  have hframes : Thinned groups (frames.map Prod.fst) := hfits.frames
  cases groups with
  | nil => cases hnest
  | cons delimiter outer =>
    cases delimiter with
    | bracket => cases hnest
    | brace =>
      -- Braces are never left out, so the pass has the same group open.
      obtain ⟨inner, hinner, h⟩ := hframes.of_brace
      obtain ⟨⟨opened, opener⟩, frames, rfl, rfl, rfl⟩ := List.map_eq_cons_iff.mp hinner
      exact advances_atom ⟨outer, true⟩ ⟨frames, envs, opener⟩
        (@Lexes.right .brace (spell atoms)).begins rfl ⟨h, by simp⟩ hnest

theorem advances_rightBracket {isLit : Bool} (hfits : Fits nesting skeleton)
    (hnest : nesting.nest (.char isLit ']' :: atoms) = some last) :
    Advances skeleton (.char isLit ']' :: atoms) last := by
  obtain ⟨groups, isReady⟩ := nesting
  obtain ⟨frames, envs, pending⟩ := skeleton
  have hbegins := (@Lexes.right .bracket (spell atoms)).begins
  have hframes : Thinned groups (frames.map Prod.fst) := hfits.frames
  -- A bracket that closes nothing is a character like others.
  have hplain (hclose : Skeleton.close ⟨frames, envs, pending⟩ .bracket = some ⟨frames, envs, none⟩)
      (next : Nesting) (hthinned : Thinned next.groups (frames.map Prod.fst))
      (hnest : next.nest atoms = some last) :
      Advances ⟨frames, envs, pending⟩ (.char isLit ']' :: atoms) last :=
    advances_atom next ⟨frames, envs, none⟩ hbegins hclose ⟨hthinned, fun _ => rfl⟩ hnest
  cases groups with
  | nil =>
    obtain rfl := List.map_eq_nil_iff.mp hframes.of_nil
    exact hplain rfl ⟨[], false⟩ .nil hnest
  | cons delimiter outer =>
    cases frames with
    | nil =>
      generalize heq : List.map Prod.fst [] = kinds at hframes
      cases hframes with
      | keep => cases heq
      | drop h =>
        subst heq
        exact hplain rfl ⟨outer, true⟩ h hnest
    | cons frame frames =>
      obtain ⟨opened, opener⟩ := frame
      cases delimiter with
      | brace =>
        cases hframes with
        | keep _ h => exact hplain rfl ⟨.brace :: outer, false⟩ (.keep .brace h) hnest
      | bracket =>
        cases opened with
        | bracket =>
          refine advances_atom ⟨outer, true⟩ ⟨frames, envs, opener⟩ hbegins rfl ⟨?_, by simp⟩ hnest
          cases hframes with
          | keep _ h => exact h
          | drop h => exact h.tail
        | brace =>
          cases hframes with
          | drop h => exact hplain rfl ⟨outer, true⟩ h hnest

/-! ### Other characters -/

theorem advances_blank {isLit : Bool} {c : Char} (hc : isTexBlank c = true)
    (h : WellSpelled (.char isLit c :: atoms)) (hfits : Fits nesting skeleton)
    (hnest : nesting.nest (.char isLit c :: atoms) = some last) :
    Advances skeleton (.char isLit c :: atoms) last := by
  obtain ⟨blanks, back, rfl, hblanks, hstops⟩ := exists_blanks h.2
  have hrun : ∀ atom ∈ .char isLit c :: blanks, atom.isTexBlank = true :=
    List.forall_mem_cons.mpr ⟨hc, hblanks⟩
  obtain ⟨isReady, hready, hbehind⟩ := nest_blanks hrun nesting back
  have hlast : nest ⟨nesting.groups, isReady⟩ back = some last := hbehind.symm.trans hnest
  have hbegins := (Lexes.blanks (List.cons_ne_nil c (spell blanks)) (spell_blanks hrun) hstops).begins
  refine ⟨_, spell (.char isLit c :: blanks), back, ⟨nesting.groups, isReady⟩, _,
    ⟨.char isLit c :: blanks, rfl⟩, ?_, hbegins, skeleton.act_blanks _ _, ⟨?_, ?_⟩, hlast⟩
  · rw [← spell_append]
    rfl
  · rw [Skeleton.pass_frames]
    exact hfits.frames
  · intro heq
    rw [Skeleton.pass]
    split
    · rfl
    · exact hfits.pending (hready heq)

theorem advances_plain {isLit : Bool} {c : Char} (hplain : Plain c) (hblank : isTexBlank c = false)
    (hfits : Fits nesting skeleton) (hnest : nesting.nest (.char isLit c :: atoms) = some last) :
    Advances skeleton (.char isLit c :: atoms) last := by
  obtain ⟨isReady, hread, -⟩ := readChar_of_plain hplain nesting (mayClose 0 atoms) isLit
  rw [nest_cons, Nesting.read, hread] at hnest
  exact advances_atom ⟨nesting.groups, isReady⟩ (skeleton.awaiting none)
    (Lexes.plain hplain hblank).begins rfl ⟨hfits.frames, fun _ => rfl⟩ hnest

theorem advances_char {isLit : Bool} {c : Char} (h : WellSpelled (.char isLit c :: atoms))
    (hfits : Fits nesting skeleton) (hnest : nesting.nest (.char isLit c :: atoms) = some last) :
    Advances skeleton (.char isLit c :: atoms) last := by
  by_cases hleft : c = '\x7b'
  · subst hleft
    exact advances_left hfits hnest
  by_cases hleftBracket : c = '['
  · subst hleftBracket
    exact advances_leftBracket h hfits hnest
  by_cases hright : c = '\x7d'
  · subst hright
    exact advances_right hfits hnest
  by_cases hrightBracket : c = ']'
  · subst hrightBracket
    exact advances_rightBracket hfits hnest
  have hplain : Plain c := ⟨⟨h.1.1, hleft, hright, h.1.2⟩, hleftBracket, hrightBracket⟩
  by_cases hblank : isTexBlank c = true
  · exact advances_blank hblank h hfits hnest
  · exact advances_plain hplain (by simpa using hblank) hfits hnest

/-! ### Control words -/

theorem begins_word {isLit : Bool} {name : String} {rest : Text} {lexeme : Lexeme}
    (h : WellSpelled (.word isLit name :: atoms)) (hread : readWord name (spell atoms) = (lexeme, rest))
    {piece : Text} (htext : spell (.word isLit name :: atoms) = piece ++ rest) :
    Begins lexeme piece rest := by
  obtain ⟨hne, hletters, -, -, hstops, hverbatim⟩ := h.1
  refine ⟨'\\', name.toList ++ spell atoms, htext.symm, ?_⟩
  rw [read_escape, readEscape_word hne hletters hstops hverbatim, hread]

/-- What the pass reads where a control word begins: the beginning or the end of an environment, with
or without a name, or a command, with or without a star. -/
theorem word_cases {isLit : Bool} {name : String} (h : WellSpelled (.word isLit name :: atoms)) :
    Begins .nameless ('\\' :: name.toList) (spell atoms) ∨
    (∃ env after lexeme, environmentName? (spell atoms) = some (env, after) ∧
      readWord name (spell atoms) = (lexeme, after) ∧
      (lexeme = .opening env ∨ lexeme = .ending env)) ∨
    (∃ isStarLit back, atoms = .char isStarLit '*' :: back ∧
      Begins (.command name) ('\\' :: (name.toList ++ ['*'])) (spell back)) ∨
    Begins (.command name) ('\\' :: name.toList) (spell atoms) := by
  obtain ⟨hne, hletters, hverb, hannot, hstops, -⟩ := h.1
  by_cases henv : name = "begin" ∨ name = "end"
  · cases hname : environmentName? (spell atoms) with
    | none =>
      refine .inl (begins_word h ?_ rfl)
      rw [readWord_environment henv, hname]
    | some found =>
      obtain ⟨env, after⟩ := found
      refine .inr (.inl ⟨env, after, if name = "begin" then .opening env else .ending env, rfl, ?_, ?_⟩)
      · rw [readWord_environment henv, hname]
      · split
        · exact .inl rfl
        · exact .inr rfl
  · have hname : CommandName name :=
      ⟨hne, hletters, hverb, hannot, fun heq => henv (.inl heq), fun heq => henv (.inr heq)⟩
    refine .inr (.inr ?_)
    by_cases hstar : ∃ tail, spell atoms = '*' :: tail
    · obtain ⟨tail, htail⟩ := hstar
      obtain ⟨isStarLit, back, rfl, -⟩ := eq_char_of_spell_eq_cons h.2 htail (by decide) (by decide)
      exact .inl ⟨isStarLit, back, rfl, (Lexes.starred hname).begins⟩
    · refine .inr (Lexes.command hname ?_).begins
      intro c hc
      rw [extendsWord, hstops c hc, Bool.false_or, beq_eq_false_iff_ne]
      rintro rfl
      exact hstar (List.head?_eq_some_iff.mp hc)

/-- The beginning or the end of an environment. -/
theorem advances_environment {isLit : Bool} {name env : String} {after : Text} {lexeme : Lexeme}
    (h : WellSpelled (.word isLit name :: atoms))
    (hname : environmentName? (spell atoms) = some (env, after))
    (hread : readWord name (spell atoms) = (lexeme, after))
    (hact : ∀ closes, ∃ mid, skeleton.act lexeme closes = some mid ∧ mid.frames = skeleton.frames)
    (hfits : Fits nesting skeleton) (hnest : nesting.nest (.word isLit name :: atoms) = some last) :
    Advances skeleton (.word isLit name :: atoms) last := by
  obtain ⟨⟨body, rest⟩, hgroup, heq⟩ := Option.map_eq_some_iff.mp hname
  obtain ⟨-, rfl⟩ := Prod.mk.inj heq
  obtain ⟨back, ⟨front, rfl⟩, rfl, hlast⟩ :=
    @nest_readGroup? ⟨nesting.groups, true⟩ _ _ _ _ h.2 hnest hgroup
  obtain ⟨mid, hmid, hframes⟩ := hact (bracketCloses (spell back))
  have htext : spell (.word isLit name :: (front ++ back)) =
      spell (.word isLit name :: front) ++ spell back := by
    rw [← spell_append, List.cons_append]
  refine ⟨lexeme, spell (.word isLit name :: front), back, ⟨nesting.groups, true⟩, mid,
    ⟨.word isLit name :: front, rfl⟩, htext, begins_word h hread htext, hmid, ⟨?_, by simp⟩, hlast⟩
  rw [hframes]
  exact hfits.frames

theorem advances_word {isLit : Bool} {name : String} (h : WellSpelled (.word isLit name :: atoms))
    (hfits : Fits nesting skeleton) (hnest : nesting.nest (.word isLit name :: atoms) = some last) :
    Advances skeleton (.word isLit name :: atoms) last := by
  rcases word_cases h with hbegins | ⟨env, after, lexeme, hname, hread, hlexeme⟩ |
    ⟨isStarLit, back, rfl, hbegins⟩ | hbegins
  · exact advances_atom ⟨nesting.groups, true⟩ (skeleton.awaiting none) hbegins rfl
      ⟨hfits.frames, by simp⟩ hnest
  · refine advances_environment h hname hread (fun closes => ?_) hfits hnest
    rcases hlexeme with rfl | rfl
    · exact ⟨_, rfl, rfl⟩
    · exact ⟨_, rfl, rfl⟩
  · obtain ⟨isReady, hstar, hready⟩ := readChar_of_plain (c := '*') (by decide)
      ⟨nesting.groups, true⟩ (mayClose 0 back) isStarLit
    change (readChar ⟨nesting.groups, true⟩ (mayClose 0 back) isStarLit '*').bind
        (fun next => next.nest back) = some last
      at hnest
    rw [hstar] at hnest
    refine ⟨.command name, '\\' :: (name.toList ++ ['*']), back, ⟨nesting.groups, isReady⟩,
      skeleton.awaiting (some name), ?_, ?_, hbegins, rfl, ⟨hfits.frames, ?_⟩, hnest⟩
    · exact (List.suffix_cons _ _).trans (List.suffix_cons _ _)
    · rw [spell_cons, spell_cons, List.cons_append, List.append_assoc]
      rfl
    · intro heq
      cases hready heq rfl
  · exact advances_atom ⟨nesting.groups, true⟩ (skeleton.awaiting (some name)) hbegins rfl
      ⟨hfits.frames, by simp⟩ hnest

/-! ### Runs -/

/-- **The pass reads on wherever the atoms nest.** -/
theorem advances (h : WellSpelled (atom :: atoms)) (hfits : Fits nesting skeleton)
    (hnest : nesting.nest (atom :: atoms) = some last) : Advances skeleton (atom :: atoms) last := by
  cases atom with
  | word isLit name => exact advances_word h hfits hnest
  | char isLit c => exact advances_char h hfits hnest
  | symbol isLit c =>
    have hc : c.isAlpha = false := h.1
    exact advances_atom ⟨nesting.groups, isLit && !isMarkupSymbol c⟩ (skeleton.awaiting none)
      (Lexes.escape hc).begins rfl ⟨hfits.frames, fun _ => rfl⟩ hnest
  | comment line =>
    have hline : ∀ c ∈ line, c ≠ '\n' := h.1
    exact advances_atom nesting skeleton (Lexes.comment hline).begins rfl hfits hnest
  | note note =>
    have hnote : IsNote note := h.1
    exact advances_atom nesting (skeleton.awaiting none) (hnote _) rfl
      ⟨hfits.frames, fun _ => rfl⟩ hnest
  | verbatim isBalanced text =>
    have hverbatim : IsVerbatim text := h.1.1
    rw [nest_cons] at hnest
    obtain ⟨next, hread, hlast⟩ := Option.bind_eq_some_iff.mp hnest
    have hnext : next = ⟨nesting.groups, false⟩ := by
      unfold Nesting.read at hread
      dsimp only at hread
      split at hread
      · exact (Option.some.inj hread).symm
      · cases hread
    subst hnext
    exact advances_atom ⟨nesting.groups, false⟩ (skeleton.awaiting none) (hverbatim _) rfl
      ⟨hfits.frames, fun _ => rfl⟩ hlast

/-- What a lexeme is read from is not empty, so fewer atoms are left behind it. -/
theorem length_lt_of_begins {lexeme : Lexeme} {piece : Text} {back : List Atom} (hback : back <:+ atoms)
    (htext : spell atoms = piece ++ spell back) (hbegins : Begins lexeme piece (spell back)) :
    back.length < atoms.length := by
  refine Nat.lt_of_le_of_ne hback.length_le fun heq => ?_
  obtain rfl := hback.eq_of_length heq
  obtain rfl : piece = [] := by simpa using htext
  obtain ⟨c, text, hcons, hread⟩ := hbegins
  have hsuffix := (read_suffix c text).length_le
  rw [hread, ← List.nil_append (spell _), hcons, List.length_cons] at hsuffix
  omega

/-- The pass comes to the end of a text whose atoms nest. -/
theorem reaches_of_nest (h : WellSpelled atoms) (hfits : Fits nesting skeleton)
    (hnest : nesting.nest atoms = some last) :
    ∃ final, skeleton.Reaches (spell atoms) final [] ∧ Fits last final := by
  induction hlength : atoms.length using Nat.strongRecOn generalizing atoms nesting skeleton with
  | ind length ih =>
    cases atoms with
    | nil =>
      obtain rfl := Option.some.inj hnest
      exact ⟨skeleton, .refl _ _, hfits⟩
    | cons atom atoms =>
      obtain ⟨lexeme, piece, back, next, mid, hback, htext, hbegins, hact, hmid, hlast⟩ :=
        advances h hfits hnest
      have hshorter : back.length < length := hlength ▸ length_lt_of_begins hback htext hbegins
      obtain ⟨final, hreaches, hfinal⟩ :=
        ih back.length hshorter (h.of_suffix hback) hmid hlast rfl
      refine ⟨final, ?_, hfinal⟩
      rw [htext]
      exact .step hbegins hact hreaches

/-- **The pass accepts a text whose atoms nest.** -/
theorem relocate_ok_of_nest (h : WellSpelled atoms) {isReady : Bool}
    (hnest : start.nest atoms = some ⟨[], isReady⟩) (contexts : Contexts) :
    ∃ out, (relocate contexts (spell atoms)).result = .ok out := by
  obtain ⟨final, hreaches, hfinal⟩ := reaches_of_nest h fits_start hnest
  refine (relocate_ok_iff_skeleton (spell atoms)).mpr ⟨final, hreaches, ?_⟩
  exact List.map_eq_nil_iff.mp hfinal.frames.of_nil

end Nesting

end Marginalia
