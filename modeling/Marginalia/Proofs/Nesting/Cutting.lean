import Marginalia.Proofs.Nesting.Ending

/-! # Where the segmenter cuts

What the segmenter takes for running text is a row of atoms without delimiters, but for empty groups
behind glyphs (`Running`), whatever stands behind it (`running_step`).  Markup may reach far, since
the segmenter looks for the end of mathematics and of arguments: verbatim text can mislead it, and
it may end a part in the midst of it.

`Passes` says that it does not, so all parts of a region end between two atoms.  This holds wherever
there are neither notes nor verbatim text (`Scanned.passes`).
-/
namespace Marginalia

open Text Latex Relocation

/-- A character of running text. -/
structure Ordinary (c : Char) : Prop extends Plain c where
  dollar : c ≠ '$'
  ampersand : c ≠ '&'

/-- Running text: ordinary characters, control symbols for characters, and glyphs, with or without
an empty group behind them. -/
inductive Running : List Atom → Prop
  | nil : Running []
  | char {isLit : Bool} {c : Char} {run : List Atom} (hc : Ordinary c) (h : Running run) :
      Running (.char isLit c :: run)
  | symbol {isLit : Bool} {c : Char} {run : List Atom} (hc : Nesting.isMarkupSymbol c = false)
      (h : Running run) : Running (.symbol isLit c :: run)
  | glyph {isLit : Bool} {name : String} {run : List Atom} (hname : isTextSymbol name = true)
      (h : Running run) : Running (.word isLit name :: run)
  | emptyGroup {isLit left right : Bool} {name : String} {run : List Atom}
      (hname : isTextSymbol name = true) (h : Running run) :
      Running (.word isLit name :: .char left '\x7b' :: .char right '\x7d' :: run)

/-- The atom tells that it is highlighted, if it can be running text. -/
def Atom.IsLit : Atom → Prop
  | word isLit name => isTextSymbol name = true → isLit = true
  | char isLit c => Ordinary c → isLit = true
  | symbol isLit c => Nesting.isMarkupSymbol c = false → isLit = true
  | _ => True

variable {atom : Atom} {atoms run back : List Atom} {text rest : Text}

theorem Running.append (h : Running run) (hback : Running back) : Running (run ++ back) := by
  induction h with
  | nil => exact hback
  | char hc _ ih => exact .char hc ih
  | symbol hc _ ih => exact .symbol hc ih
  | glyph hname _ ih => exact .glyph hname ih
  | emptyGroup hname _ ih => exact .emptyGroup hname ih

theorem ordinary_of_isTexBlank {c : Char} (h : isTexBlank c = true) : Ordinary c := by
  refine ⟨plain_of_isTexBlank h, ?_, ?_⟩ <;>
    (rintro rfl; exact absurd h (by decide))

theorem running_blanks {blanks : List Atom} (h : ∀ atom ∈ blanks, atom.isTexBlank = true) :
    Running blanks := by
  induction blanks with
  | nil => exact .nil
  | cons atom blanks ih =>
    obtain ⟨hatom, hblanks⟩ := List.forall_mem_cons.mp h
    cases atom with
    | char isLit c => exact .char (ordinary_of_isTexBlank hatom) (ih hblanks)
    | word => cases hatom
    | symbol => cases hatom
    | comment => cases hatom
    | note => cases hatom
    | verbatim => cases hatom

namespace Segmenter

variable {state : Segmenter}

/-! ### Running text -/

/-- What the pass reads where a control sequence is running text. -/
theorem readEscape_of_running (h : (control state text).isMarkup = false) :
    (readEscape text).1 = .escape ∨ ∃ name, (readEscape text).1 = .command name := by
  obtain ⟨hverbatim, hcases⟩ := control_of_running h
  rw [readEscape, hverbatim]
  dsimp only
  rcases hcases with ⟨name, rest, hread, hglyph, -⟩ | ⟨c, rest, hread, -⟩ | ⟨rest, hread, -⟩
  · have hne {word : String} (hword : isTextSymbol word = false) : name ≠ word := by
      rintro rfl
      rw [hglyph] at hword
      cases hword
    refine .inr ⟨name, ?_⟩
    rw [hread]
    dsimp only
    unfold readWord
    rw [if_neg (hne (by decide)), if_neg (hne (by decide)),
      if_neg (not_or.mpr ⟨hne (by decide), hne (by decide)⟩)]
  · rw [hread]
    exact .inl rfl
  · rw [hread]
    exact .inl rfl

/-- The atoms begin with the running text that a step reads. -/
def Step.Runs (read : Step) (atoms : List Atom) : Prop :=
  read.isMarkup = false →
    ∃ front back, atoms = front ++ back ∧ spell back = read.rest ∧ Running front

theorem Step.runs_of_isMarkup {read : Step} (h : read.isMarkup = true) (atoms : List Atom) :
    read.Runs atoms := by
  intro hplain
  rw [h] at hplain
  cases hplain

theorem runs_glyph {isLit : Bool} {name : String} {piece : Text} (hname : isTextSymbol name = true)
    (h : WellSpelled atoms) :
    (Step.mk false piece (dropEmptyGroup (spell atoms)) state).Runs (.word isLit name :: atoms) := by
  intro _
  unfold dropEmptyGroup
  split
  · next text htext =>
    obtain ⟨left, after, rfl, hafter⟩ := eq_char_of_spell_eq_cons h htext (by decide) (by decide)
    obtain ⟨right, back, rfl, rfl⟩ := eq_char_of_spell_eq_cons h.2 hafter (by decide) (by decide)
    exact ⟨[.word isLit name, .char left '\x7b', .char right '\x7d'], back, rfl, rfl,
      .emptyGroup hname .nil⟩
  · exact ⟨[.word isLit name], atoms, rfl, rfl, .glyph hname .nil⟩

theorem control_word {isLit : Bool} {name : String} (h : WellSpelled (.word isLit name :: atoms)) :
    control state (name.toList ++ spell atoms) =
      if isTextSymbol name then
        ⟨false, upTo ('\\' :: (name.toList ++ spell atoms)) (dropEmptyGroup (spell atoms)),
          dropEmptyGroup (spell atoms), state⟩
      else command state ('\\' :: (name.toList ++ spell atoms)) name (spell atoms) := by
  obtain ⟨-, -, hverb, -, -, hverbatim⟩ := h.1
  unfold control
  dsimp only
  rw [hverbatim]
  dsimp only
  rw [h.1.readControl_word]
  dsimp only
  rw [if_neg hverb]

theorem runs_word {isLit : Bool} {name : String} (h : WellSpelled (.word isLit name :: atoms)) :
    (control state (name.toList ++ spell atoms)).Runs (.word isLit name :: atoms) := by
  rw [control_word h]
  by_cases hname : isTextSymbol name = true
  · rw [if_pos hname]
    exact runs_glyph hname h.2
  · rw [if_neg hname]
    exact Step.runs_of_isMarkup (isMarkup_command ..) _

theorem control_symbol {isLit : Bool} {c : Char} (h : WellSpelled (.symbol isLit c :: atoms)) :
    control state (c :: spell atoms) =
      if c = '\\' then passUpTo state ('\\' :: c :: spell atoms) (spell atoms)
      else if c = '(' then
        passOrCarry state ('\\' :: c :: spell atoms) (MathDelimiter.paren.close? (spell atoms))
          (.math .paren)
      else if c = '[' then
        passOrCarry state ('\\' :: c :: spell atoms) (MathDelimiter.bracket.close? (spell atoms))
          (.math .bracket)
      else ⟨false, upTo ('\\' :: c :: spell atoms) (spell atoms), spell atoms, state⟩ := by
  have hverbatim := Verbatim.begins?_symbol h.1 (spell atoms)
  unfold control
  dsimp only
  rw [hverbatim]
  dsimp only
  rw [h.1.readControl_symbol]

theorem runs_symbol {isLit : Bool} {c : Char} (h : WellSpelled (.symbol isLit c :: atoms)) :
    (control state (c :: spell atoms)).Runs (.symbol isLit c :: atoms) := by
  rw [control_symbol h]
  split
  · exact Step.runs_of_isMarkup rfl _
  split
  · exact Step.runs_of_isMarkup (isMarkup_passOrCarry ..) _
  split
  · exact Step.runs_of_isMarkup (isMarkup_passOrCarry ..) _
  · next hescape hparen hbracket =>
    refine fun _ => ⟨[.symbol isLit c], atoms, rfl, rfl, .symbol ?_ .nil⟩
    simp [Nesting.isMarkupSymbol, hescape, hparen, hbracket]

theorem runs_char {isLit : Bool} {c : Char} (h : WellSpelled (.char isLit c :: atoms)) :
    (step state c (spell atoms)).Runs (.char isLit c :: atoms) := by
  unfold step
  split
  · exact absurd rfl h.1.1
  · exact Step.runs_of_isMarkup rfl _
  · exact Step.runs_of_isMarkup rfl _
  · exact Step.runs_of_isMarkup rfl _
  · exact Step.runs_of_isMarkup rfl _
  · exact Step.runs_of_isMarkup rfl _
  · exact Step.runs_of_isMarkup rfl _
  · exact Step.runs_of_isMarkup (isMarkup_dollar ..) _
  · next hescape hleft hright hrightBracket hampersand hleftBracket hcomment hdollar =>
    intro _
    by_cases hblank : isTexBlank c = true
    · obtain ⟨blanks, back, rfl, hblanks, hstops⟩ := exists_blanks h.2
      refine ⟨.char isLit c :: blanks, back, rfl, ?_, ?_⟩
      · rw [if_pos hblank, spell_append,
          (takeWhile_append_stop (spell_blanks hblanks) hstops).2]
      · exact running_blanks (List.forall_mem_cons.mpr ⟨hblank, hblanks⟩)
    · rw [if_neg hblank]
      have hordinary : Ordinary c :=
        ⟨⟨⟨hescape, hleft, hright, hcomment⟩, hleftBracket, hrightBracket⟩, hdollar, hampersand⟩
      exact ⟨[.char isLit c], atoms, rfl, rfl, .char hordinary .nil⟩

/-- **Running text is a row of atoms**, whatever stands behind it. -/
theorem runs_step (h : WellSpelled atoms) {c : Char} (htext : spell atoms = c :: text) :
    (step state c text).Runs atoms := by
  cases atoms with
  | nil => cases htext
  | cons atom atoms =>
    -- Neither a note nor verbatim text is running text.
    have hescape {lexeme : Lexeme} {tail : Text} (hread : Begins lexeme ('\\' :: tail) (spell atoms))
        (hlexeme : lexeme = .note ∨ lexeme = .verbatim) :
        (control state (tail ++ spell atoms)).Runs (atom :: atoms) := by
      intro hplain
      obtain ⟨d, rest, hrest, hread⟩ := hread
      obtain ⟨rfl, rfl⟩ := List.cons.inj hrest
      have hfst : (readEscape (tail ++ spell atoms)).1 = lexeme := congrArg Prod.fst hread
      rcases readEscape_of_running hplain with heq | ⟨name, heq⟩ <;>
        rcases hlexeme with rfl | rfl <;> cases heq.symm.trans hfst
    cases atom with
    | word isLit name =>
      obtain ⟨rfl, rfl⟩ := List.cons.inj htext
      exact runs_word h
    | symbol isLit d =>
      obtain ⟨rfl, rfl⟩ := List.cons.inj htext
      exact runs_symbol h
    | char isLit d =>
      obtain ⟨rfl, rfl⟩ := List.cons.inj htext
      exact runs_char h
    | note note =>
      have hnote : IsNote note := h.1
      obtain ⟨tail, rfl⟩ := hnote.eq_cons
      obtain ⟨rfl, rfl⟩ := List.cons.inj htext
      exact hescape (hnote _) (.inl rfl)
    | verbatim isBalanced verbatim =>
      have hverbatim : IsVerbatim verbatim := h.1.1
      obtain ⟨tail, rfl⟩ := hverbatim.eq_cons
      obtain ⟨rfl, rfl⟩ := List.cons.inj htext
      exact hescape (hverbatim _) (.inr rfl)
    | comment line =>
      obtain ⟨rfl, rfl⟩ := List.cons.inj htext
      exact Step.runs_of_isMarkup rfl _

/-! ### Parts that end between two atoms -/

/-- Every step over the text that the atoms spell ends between two of them. -/
inductive Steps : Segmenter → List Atom → Prop
  | nil {state : Segmenter} : Steps state []
  | step {state : Segmenter} {front back : List Atom} {c : Char} {text : Text}
      (htext : spell (front ++ back) = c :: text) (hrest : spell back = (step state c text).rest)
      (h : Steps (step state c text).state back) : Steps state (front ++ back)

/-- What is open from the region before and every step behind it end between two atoms. -/
def Passes (state : Segmenter) (atoms : List Atom) : Prop :=
  ∃ front back, atoms = front ++ back ∧ spell back = (resume state (spell atoms)).rest ∧
    Steps (resume state (spell atoms)).state back

/-- The state is not inside a verbatim environment. -/
def IsReadable (state : Segmenter) : Prop :=
  ∀ env, state.mode ≠ .verbatim env

theorem isReadable_start : start.IsReadable := fun env heq => by cases heq

/-- What a step leaves ends the atoms, and leaves no verbatim environment open. -/
structure Step.Cuts (read : Step) (atoms : List Atom) : Prop where
  readable : read.state.IsReadable
  ends : Ends atoms read.rest

theorem ends_nil (atoms : List Atom) : Ends atoms [] :=
  ⟨[], List.nil_suffix, rfl⟩

theorem cuts_passOrCarry {rest? : Option Text} {carried : Mode} (hreadable : state.IsReadable)
    (hcarried : ∀ env, carried ≠ .verbatim env) (hends : ∀ rest, rest? = some rest → Ends atoms rest) :
    (passOrCarry state text rest? carried).Cuts atoms := by
  cases rest? with
  | none => exact ⟨hcarried, ends_nil atoms⟩
  | some rest => exact ⟨hreadable, hends rest rfl⟩

theorem cuts_command {name : String} (hreadable : state.IsReadable) (h : Scanned atoms) :
    (command state text name (spell atoms)).Cuts (atom :: atoms) := by
  have hstar := ends_dropStar h
  have hhead : Ends atoms (definitionHead (dropStar (spell atoms))) := by
    obtain ⟨back, hback, hspell⟩ := hstar
    rw [← hspell]
    exact (ends_definitionHead (h.of_suffix hback)).of_suffix hback
  unfold command
  split
  next after count heq =>
  have hafter : Ends atoms after := by
    split at heq
    · obtain ⟨rfl, rfl⟩ := Prod.mk.inj heq
      exact hhead
    · obtain ⟨rfl, rfl⟩ := Prod.mk.inj heq
      exact hstar
  have hoptional : Ends atoms (optionalArguments after) := by
    obtain ⟨back, hback, rfl⟩ := hafter
    exact (ends_optionalArguments (h.of_suffix hback)).of_suffix hback
  have hclosed {rest : Text}
      (hread : commandArguments name count (optionalArguments after) = .closed rest) :
      (passUpTo state text rest).Cuts (atom :: atoms) := by
    obtain ⟨back, hback, hspell⟩ := hoptional
    rw [← hspell] at hread
    have hends := (ends_commandArguments (h.of_suffix hback) hread).of_suffix hback
    exact ⟨hreadable, hends.cons atom⟩
  have hunclosed (depth : Nat) :
      (Step.mk true text [] { state with mode := .raw depth }).Cuts (atom :: atoms) :=
    ⟨by simp [IsReadable], ends_nil _⟩
  dsimp only
  split
  · next inner hinner =>
    split
    · obtain ⟨back, hback, hspell⟩ := hoptional
      have hskip := (ends_skipBlanks (h.of_suffix hback)).of_suffix hback
      rw [hspell, hinner] at hskip
      obtain ⟨isLit, last, hlast, rfl, -⟩ := exists_char h hskip (by decide) (by decide)
      have hends := (ends_self last).of_suffix ((List.suffix_cons _ _).trans hlast)
      exact ⟨hreadable, hends.cons atom⟩
    · split
      · next hread => exact hclosed hread
      · exact hunclosed _
  · split
    · next hread => exact hclosed hread
    · exact hunclosed _

theorem cuts_word {isLit : Bool} {name : String} (hreadable : state.IsReadable)
    (h : Scanned (.word isLit name :: atoms)) :
    (control state (name.toList ++ spell atoms)).Cuts (.word isLit name :: atoms) := by
  rw [control_word h.wellSpelled]
  split
  · next hname =>
    obtain ⟨front, back, hatoms, hback, -⟩ :=
      @runs_glyph _ state isLit name [] hname h.tail.wellSpelled rfl
    exact ⟨hreadable, back, ⟨front, hatoms.symm⟩, hback⟩
  · exact cuts_command hreadable h.tail

theorem cuts_symbol {isLit : Bool} {c : Char} (hreadable : state.IsReadable)
    (h : Scanned (.symbol isLit c :: atoms)) :
    (control state (c :: spell atoms)).Cuts (.symbol isLit c :: atoms) := by
  have hends : Ends (.symbol isLit c :: atoms) (spell atoms) := (ends_self atoms).cons _
  have hmath {delimiter : MathDelimiter} :
      (passOrCarry state ('\\' :: c :: spell atoms) (delimiter.close? (spell atoms))
        (.math delimiter)).Cuts (.symbol isLit c :: atoms) :=
    cuts_passOrCarry hreadable (by simp) fun rest hrest =>
      (MathDelimiter.ends_close? h.tail hrest).cons _
  rw [control_symbol h.wellSpelled]
  split
  · exact ⟨hreadable, hends⟩
  split
  · exact hmath
  split
  · exact hmath
  · exact ⟨hreadable, hends⟩

theorem cuts_dollar (hreadable : state.IsReadable) {isLit : Bool}
    (h : Scanned (.char isLit '$' :: atoms)) :
    (dollar state (spell atoms)).Cuts (.char isLit '$' :: atoms) := by
  unfold dollar
  split
  · next body hbody =>
    refine cuts_passOrCarry hreadable (by simp) fun rest hrest => ?_
    obtain ⟨isLit', back, hback, rfl, hscanned⟩ :=
      exists_char h.tail (hbody ▸ ends_self atoms) (by decide) (by decide)
    have hends := (MathDelimiter.ends_close? hscanned hrest).of_suffix
      ((List.suffix_cons _ _).trans hback)
    exact hends.cons _
  · exact cuts_passOrCarry hreadable (by simp) fun rest hrest =>
      (MathDelimiter.ends_close? h.tail hrest).cons _

theorem cuts_char (hreadable : state.IsReadable) {isLit : Bool} {c : Char}
    (h : Scanned (.char isLit c :: atoms)) :
    (step state c (spell atoms)).Cuts (.char isLit c :: atoms) := by
  have hends : Ends (.char isLit c :: atoms) (spell atoms) := (ends_self atoms).cons _
  unfold step
  split
  · exact absurd rfl h.head.1
  · refine ⟨?_, hends⟩
    unfold openGroup
    split <;> exact hreadable
  · refine ⟨?_, hends⟩
    unfold endGroup
    split <;> exact hreadable
  · refine ⟨?_, hends⟩
    unfold endBracket
    split <;> exact hreadable
  · exact ⟨hreadable, hends⟩
  · exact ⟨hreadable, hends⟩
  · exact absurd rfl h.head.2
  · exact cuts_dollar hreadable h
  · split
    · exact ⟨hreadable, (ends_dropWhile (by decide) (by decide) h.tail).cons _⟩
    · exact ⟨hreadable, hends⟩

/-- **A step cuts between two atoms** where there are neither notes nor verbatim text. -/
theorem cuts_step (hreadable : state.IsReadable) (h : Scanned atoms) {c : Char}
    (htext : spell atoms = c :: text) : (step state c text).Cuts atoms := by
  cases atoms with
  | nil => cases htext
  | cons atom atoms =>
    cases atom with
    | word isLit name =>
      obtain ⟨rfl, rfl⟩ := List.cons.inj htext
      exact cuts_word hreadable h
    | symbol isLit d =>
      obtain ⟨rfl, rfl⟩ := List.cons.inj htext
      exact cuts_symbol hreadable h
    | char isLit d =>
      obtain ⟨rfl, rfl⟩ := List.cons.inj htext
      exact cuts_char hreadable h
    | note note => exact absurd (h.scanned _ List.mem_cons_self) id
    | verbatim isBalanced verbatim => exact absurd (h.scanned _ List.mem_cons_self) id
    | comment line =>
      obtain ⟨rfl, rfl⟩ := List.cons.inj htext
      refine ⟨hreadable, ?_⟩
      change Ends _ (dropComment ((line ++ ['\n']) ++ spell atoms))
      rw [List.append_assoc, List.singleton_append, (dropComment_line h.head).2]
      exact (ends_self atoms).cons _

/-- What is open from the region before ends between two atoms. -/
theorem cuts_resume (hreadable : state.IsReadable) (h : Scanned atoms) :
    (resume state (spell atoms)).Cuts atoms := by
  unfold resume
  dsimp only
  split
  · exact ⟨by simp [IsReadable], ends_self atoms⟩
  · exact cuts_passOrCarry (by simp [IsReadable]) (by simp) fun rest hrest =>
      MathDelimiter.ends_close? h hrest
  · next env hmode => exact absurd hmode (hreadable env)
  · next depth hmode =>
    split
    · next rest hclose => exact ⟨by simp [IsReadable, passUpTo], ends_group h hclose⟩
    · exact ⟨by simp [IsReadable], ends_nil atoms⟩

/-- Every step ends between two atoms where there are neither notes nor verbatim text. -/
theorem steps_of_scanned (hreadable : state.IsReadable) (h : Scanned atoms) :
    Steps state atoms ∧ (parts state (spell atoms)).2.IsReadable := by
  induction hlength : atoms.length using Nat.strongRecOn generalizing atoms state with
  | ind length ih =>
    cases htext : spell atoms with
    | nil =>
      obtain rfl := eq_nil_of_spell_eq_nil h.wellSpelled htext
      rw [parts]
      exact ⟨.nil, hreadable⟩
    | cons c text =>
      obtain ⟨hafter, back, ⟨front, rfl⟩, hback⟩ := cuts_step hreadable h htext
      have hreads := reads_step state c text
      have hlt : back.length < length := by
        cases front with
        | nil =>
          have hle := hreads.length_le
          rw [← hback, ← List.nil_append back, htext, List.length_cons] at hle
          omega
        | cons atom front =>
          rw [List.cons_append, List.length_cons, List.length_append] at hlength
          omega
      obtain ⟨hsteps, hlast⟩ :=
        ih back.length hlt hafter (h.of_suffix (List.suffix_append front back)) rfl
      rw [hback] at hlast
      rw [parts]
      exact ⟨.step htext hback hsteps, hlast⟩

end Segmenter

/-- **All parts of a region end between two atoms** where there are neither notes nor verbatim text,
and no verbatim environment is open behind it. -/
theorem Scanned.passes (h : Scanned atoms) {state : Segmenter} (hreadable : state.IsReadable) :
    state.Passes atoms ∧ (state.split (spell atoms)).2.IsReadable := by
  obtain ⟨hafter, back, ⟨front, hatoms⟩, hback⟩ := Segmenter.cuts_resume hreadable h
  obtain ⟨hsteps, hlast⟩ :=
    Segmenter.steps_of_scanned hafter (h.of_suffix ⟨front, hatoms⟩)
  rw [hback] at hlast
  exact ⟨⟨front, back, hatoms.symm, hback, hsteps⟩, hlast⟩

end Marginalia
