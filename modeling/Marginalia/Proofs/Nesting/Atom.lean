import Marginalia.Proofs.Relocation.Safety

/-! # Atoms

A text of LaTeX is spelled by a row of atoms: control sequences, comments, single characters, margin
notes and verbatim text.  `WellSpelled` says which atoms can stand in a row.

Scanners take notes and verbatim text for control sequences and characters; where there are none, a
scanner goes from atom to atom (`Scanned`).
-/
namespace Marginalia

open Text Latex Relocation

/-- What the pass reads of a text without going into it.  Control sequences and characters tell
whether they are highlighted. -/
inductive Atom where
  /-- A control word. -/
  | word (isLit : Bool) (name : String)
  /-- A control symbol. -/
  | symbol (isLit : Bool) (c : Char)
  /-- A comment, given without its number sign and its line feed. -/
  | comment (line : Text)
  | char (isLit : Bool) (c : Char)
  /-- A margin note. -/
  | note (text : Text)
  /-- Inline verbatim text or a verbatim environment, and whether a scan over groups passes over
  it. -/
  | verbatim (isBalanced : Bool) (text : Text)
  deriving DecidableEq, Repr

/-- The text is verbatim text, whatever follows. -/
def IsVerbatim (text : Text) : Prop :=
  ∀ rest, Begins .verbatim text rest

theorem IsVerbatim.eq_cons {text : Text} (h : IsVerbatim text) : ∃ tail, text = '\\' :: tail := by
  obtain ⟨c, tail, htext, hread⟩ := h []
  rw [List.append_nil] at htext
  refine ⟨tail, ?_⟩
  rw [htext]
  -- Only a backslash begins verbatim text.
  have hlexeme : (Relocation.read c tail).1 = .verbatim := congrArg Prod.fst hread
  unfold Relocation.read at hlexeme
  split at hlexeme
  · cases hlexeme
  · rfl
  · cases hlexeme
  · cases hlexeme
  · cases hlexeme
  · cases hlexeme
  · by_cases hblank : isTexBlank c = true
    · rw [if_pos hblank] at hlexeme
      cases hlexeme
    · rw [if_neg hblank] at hlexeme
      cases hlexeme

namespace Atom

/-- The atom as it is written. -/
def toText : Atom → Text
  | word _ name => '\\' :: name.toList
  | symbol _ c => ['\\', c]
  | comment line => '%' :: (line ++ ['\n'])
  | char _ c => [c]
  | note text => text
  | verbatim _ text => text

/-- In front of the given text, the atom is what it seems. -/
def Stands (rest : Text) : Atom → Prop
  | word _ name =>
    name ≠ "" ∧ (∀ c ∈ name.toList, c.isAlpha = true) ∧ name ≠ "verb" ∧ name ≠ "annot" ∧
      Stops Char.isAlpha rest ∧ Verbatim.begins? ('\\' :: (name.toList ++ rest)) = none
  | symbol _ c => c.isAlpha = false
  | comment line => ∀ c ∈ line, c ≠ '\n'
  | char _ c => c ≠ '\\' ∧ c ≠ '%'
  | note text => IsNote text
  | verbatim isBalanced text => IsVerbatim text ∧ (isBalanced = true → Balanced text)

/-- Scanners read the atom as what it is. -/
def IsScanned : Atom → Prop
  | note _ => False
  | verbatim _ _ => False
  | _ => True

/-- Whether the atom is white space. -/
def isTexBlank : Atom → Bool
  | char _ c => Text.isTexBlank c
  | _ => false

end Atom

/-- The text that atoms spell. -/
def spell (atoms : List Atom) : Text :=
  atoms.flatMap Atom.toText

@[simp] theorem spell_nil : spell [] = [] := rfl

@[simp] theorem spell_cons (atom : Atom) (atoms : List Atom) :
    spell (atom :: atoms) = atom.toText ++ spell atoms := rfl

@[simp] theorem spell_append (front back : List Atom) :
    spell (front ++ back) = spell front ++ spell back :=
  List.flatMap_append

/-- Atoms that are what they seem where they stand. -/
def WellSpelled : List Atom → Prop
  | [] => True
  | atom :: atoms => atom.Stands (spell atoms) ∧ WellSpelled atoms

variable {atom : Atom} {atoms front back : List Atom} {text rest : Text}

theorem stops_of_append {p : Char → Bool} (h : Stops p (text ++ rest)) : Stops p text := by
  cases text with
  | nil => exact stops_nil p
  | cons c text => exact stops_cons.mpr (stops_cons.mp h)

/-- What follows later does not change what an atom is. -/
theorem Atom.Stands.of_append (h : atom.Stands (text ++ rest)) : atom.Stands text := by
  cases atom with
  | word isLit name =>
    obtain ⟨hne, hletters, hverb, hannot, hstops, hverbatim⟩ := h
    refine ⟨hne, hletters, hverb, hannot, stops_of_append hstops, ?_⟩
    refine Verbatim.begins?_eq_none fun env => ?_
    rintro ⟨after, hafter⟩
    refine Verbatim.not_opening_of_begins?_eq_none hverbatim env ⟨after ++ rest, ?_⟩
    rw [← List.append_assoc, hafter, List.cons_append, List.append_assoc]
  | symbol => exact h
  | comment => exact h
  | char => exact h
  | note => exact h
  | verbatim => exact h

theorem WellSpelled.left (h : WellSpelled (front ++ back)) : WellSpelled front := by
  induction front with
  | nil => trivial
  | cons atom front ih =>
    rw [List.cons_append] at h
    obtain ⟨hstands, hfront⟩ := h
    rw [spell_append] at hstands
    exact ⟨hstands.of_append, ih hfront⟩

theorem WellSpelled.right (h : WellSpelled (front ++ back)) : WellSpelled back := by
  induction front with
  | nil => exact h
  | cons atom front ih => exact ih h.2

theorem WellSpelled.of_suffix (h : WellSpelled atoms) (hsuffix : back <:+ atoms) :
    WellSpelled back := by
  obtain ⟨front, rfl⟩ := hsuffix
  exact h.right

/-! ### What atoms begin with -/

/-- A character that is neither an escape nor a comment's is an atom. -/
theorem eq_char_of_spell_eq_cons {c : Char} (h : WellSpelled atoms) (htext : spell atoms = c :: text)
    (hescape : c ≠ '\\') (hcomment : c ≠ '%') :
    ∃ isLit back, atoms = .char isLit c :: back ∧ spell back = text := by
  cases atoms with
  | nil => cases htext
  | cons atom atoms =>
    rw [spell_cons] at htext
    cases atom with
    | word isLit name => exact absurd (List.cons.inj htext).1.symm hescape
    | symbol isLit d => exact absurd (List.cons.inj htext).1.symm hescape
    | comment line => exact absurd (List.cons.inj htext).1.symm hcomment
    | char isLit d =>
      obtain ⟨rfl, rfl⟩ := List.cons.inj htext
      exact ⟨isLit, atoms, rfl, rfl⟩
    | note note =>
      have hnote : IsNote note := h.1
      obtain ⟨tail, rfl⟩ := hnote.eq_cons
      exact absurd (List.cons.inj htext).1.symm hescape
    | verbatim isBalanced verbatim =>
      obtain ⟨tail, rfl⟩ := h.1.1.eq_cons
      exact absurd (List.cons.inj htext).1.symm hescape

/-- Every atom spells something. -/
theorem eq_nil_of_spell_eq_nil (h : WellSpelled atoms) (hspell : spell atoms = []) : atoms = [] := by
  cases atoms with
  | nil => rfl
  | cons atom atoms =>
    cases atom with
    | word isLit name => cases hspell
    | symbol isLit c => cases hspell
    | comment line => cases hspell
    | char isLit c => cases hspell
    | note note =>
      have hnote : IsNote note := h.1
      obtain ⟨tail, rfl⟩ := hnote.eq_cons
      cases hspell
    | verbatim isBalanced verbatim =>
      obtain ⟨tail, rfl⟩ := h.1.1.eq_cons
      cases hspell

/-- White space at the front of atoms. -/
theorem exists_blanks (h : WellSpelled atoms) :
    ∃ blanks back, atoms = blanks ++ back ∧ (∀ atom ∈ blanks, atom.isTexBlank = true) ∧
      Stops isTexBlank (spell back) := by
  induction atoms with
  | nil => exact ⟨[], [], rfl, by simp, stops_nil _⟩
  | cons atom atoms ih =>
    by_cases hblank : atom.isTexBlank = true
    · obtain ⟨blanks, back, rfl, hblanks, hstops⟩ := ih h.2
      exact ⟨atom :: blanks, back, rfl, List.forall_mem_cons.mpr ⟨hblank, hblanks⟩, hstops⟩
    · refine ⟨[], atom :: atoms, rfl, by simp, ?_⟩
      rw [spell_cons]
      cases atom with
      | word isLit name => exact stops_cons.mpr (by decide)
      | symbol isLit c => exact stops_cons.mpr (by decide)
      | comment line => exact stops_cons.mpr (by decide)
      | char isLit c => exact stops_cons.mpr (by simpa [Atom.isTexBlank] using hblank)
      | note note =>
        have hnote : IsNote note := h.1
        obtain ⟨tail, rfl⟩ := hnote.eq_cons
        exact stops_cons.mpr (by decide)
      | verbatim isBalanced verbatim =>
        obtain ⟨tail, rfl⟩ := h.1.1.eq_cons
        exact stops_cons.mpr (by decide)

theorem spell_blanks {blanks : List Atom} (h : ∀ atom ∈ blanks, atom.isTexBlank = true) :
    ∀ c ∈ spell blanks, isTexBlank c = true := by
  intro c hc
  obtain ⟨atom, hatom, hmem⟩ := List.mem_flatMap.mp hc
  have hblank := h atom hatom
  cases atom with
  | char isLit d =>
    obtain rfl : c = d := List.mem_singleton.mp hmem
    exact hblank
  | word => cases hblank
  | symbol => cases hblank
  | comment => cases hblank
  | note => cases hblank
  | verbatim => cases hblank

/-- The white space before an argument is a row of atoms. -/
theorem exists_skipBlanksUpTo (h : WellSpelled atoms) (newline : Bool) :
    ∃ blanks back, atoms = blanks ++ back ∧ (∀ atom ∈ blanks, atom.isTexBlank = true) ∧
      skipBlanksUpTo newline (spell atoms) = spell back := by
  induction atoms generalizing newline with
  | nil => exact ⟨[], [], rfl, by simp, rfl⟩
  | cons atom atoms ih =>
    -- An atom that is no white space is not skipped.
    have hstay {c : Char} {text : Text} (htext : spell (atom :: atoms) = c :: text)
        (hc : isTexBlank c = false) : ∃ blanks back, atom :: atoms = blanks ++ back ∧
          (∀ atom ∈ blanks, atom.isTexBlank = true) ∧
          skipBlanksUpTo newline (spell (atom :: atoms)) = spell back := by
      refine ⟨[], atom :: atoms, rfl, by simp, ?_⟩
      simp only [isTexBlank, Bool.or_eq_false_iff, beq_eq_false_iff_ne] at hc
      rw [htext, skipBlanksUpTo, if_neg (by rintro (h | h | h) <;> simp_all),
        if_neg (by rintro ⟨h, -⟩; simp_all)]
    cases atom with
    | word isLit name => exact hstay rfl (by decide)
    | symbol isLit c => exact hstay rfl (by decide)
    | comment line => exact hstay rfl (by decide)
    | note note =>
      have hnote : IsNote note := h.1
      obtain ⟨tail, rfl⟩ := hnote.eq_cons
      exact hstay rfl (by decide)
    | verbatim isBalanced verbatim =>
      obtain ⟨tail, rfl⟩ := h.1.1.eq_cons
      exact hstay rfl (by decide)
    | char isLit c =>
      have hskip {newline' : Bool} (hc : isTexBlank c = true)
          (heq : skipBlanksUpTo newline (spell (.char isLit c :: atoms)) =
            skipBlanksUpTo newline' (spell atoms)) :
          ∃ blanks back, .char isLit c :: atoms = blanks ++ back ∧
            (∀ atom ∈ blanks, atom.isTexBlank = true) ∧
            skipBlanksUpTo newline (spell (.char isLit c :: atoms)) = spell back := by
        obtain ⟨blanks, back, hatoms, hblanks, hback⟩ := ih h.2 newline'
        refine ⟨.char isLit c :: blanks, back, by rw [hatoms]; rfl, ?_, heq.trans hback⟩
        exact List.forall_mem_cons.mpr ⟨hc, hblanks⟩
      by_cases hc : c = ' ' ∨ c = '\t' ∨ c = '\r'
      · refine @hskip newline ?_ ?_
        · rcases hc with rfl | rfl | rfl <;> rfl
        · rw [spell_cons, Atom.toText, List.singleton_append, skipBlanksUpTo, if_pos hc]
      by_cases hline : c = '\n' ∧ newline = true
      · refine @hskip false ?_ ?_
        · rw [hline.1]
          rfl
        · rw [spell_cons, Atom.toText, List.singleton_append, skipBlanksUpTo, if_neg hc,
            if_pos hline]
      · refine ⟨[], .char isLit c :: atoms, rfl, by simp, ?_⟩
        rw [spell_cons, Atom.toText, List.singleton_append, skipBlanksUpTo, if_neg hc,
          if_neg hline]

theorem exists_skipBlanks (h : WellSpelled atoms) :
    ∃ blanks back, atoms = blanks ++ back ∧ (∀ atom ∈ blanks, atom.isTexBlank = true) ∧
      skipBlanks (spell atoms) = spell back :=
  exists_skipBlanksUpTo h true

/-! ### Control sequences, comments and groups -/

theorem Atom.Stands.readControl_word {isLit : Bool} {name : String}
    (h : (Atom.word isLit name).Stands rest) :
    readControl (name.toList ++ rest) = (.word name, rest) :=
  Latex.readControl_word h.1 h.2.1 h.2.2.2.2.1

theorem Atom.Stands.readControl_symbol {isLit : Bool} {c : Char}
    (h : (Atom.symbol isLit c).Stands rest) : readControl (c :: rest) = (.symbol c, rest) := by
  have hc : c.isAlpha = false := h
  rw [readControl, if_neg (by simp [hc])]

/-- A scan over groups passes over a group behind white space. -/
theorem closeGroup_readGroup? {body : Text} {depth : Nat} (hdepth : 1 ≤ depth)
    (h : readGroup? (skipBlanks text) = some (body, rest)) :
    closeGroup depth text = closeGroup depth rest := by
  obtain ⟨inner, hskip, hinner⟩ := readGroup?_replace h
  obtain ⟨blanks, rfl, hblanks, -⟩ := skipBlanks_replace hskip
  rw [closeGroup_append fun c hc => (plain_of_isTexBlank (hblanks c hc)).toInert, closeGroup,
    Nat.add_comm, closeGroup_add (Nat.le_refl 1) hdepth (hinner rest).2]

theorem closeGroup_note {note : Text} {depth : Nat} (hdepth : 1 ≤ depth) (h : IsNote note) :
    closeGroup depth (note ++ rest) = closeGroup depth rest := by
  cases (h rest).lexes ⟨by decide, by decide, by decide⟩ with
  | @note args _ hargs =>
    obtain ⟨-, -, hstops, -⟩ := noteEnd?_replace (hargs rest)
    rw [List.cons_append, List.append_assoc, closeGroup_word (by decide) (by decide) hstops]
    have hend := hargs rest
    unfold noteEnd? at hend
    split at hend
    · next key mid hkey =>
      obtain ⟨⟨body, last⟩, hbody, hlast⟩ := Option.map_eq_some_iff.mp hend
      obtain rfl : last = rest := hlast
      rw [closeGroup_readGroup? hdepth hkey, closeGroup_readGroup? hdepth hbody]
    · cases hend

/-- A scan over groups passes over every atom that is no brace, and over what scanners do not read
as what it is only inside a group. -/
theorem closeGroup_atom {depth : Nat} (h : atom.Stands rest) (hdepth : atom.IsScanned ∨ 1 ≤ depth)
    (hverbatim : ∀ text, atom ≠ .verbatim false text) (hleft : ∀ isLit, atom ≠ .char isLit '\x7b')
    (hright : ∀ isLit, atom ≠ .char isLit '\x7d') :
    closeGroup depth (atom.toText ++ rest) = closeGroup depth rest := by
  cases atom with
  | word isLit name => rw [Atom.toText, List.cons_append, closeGroup, h.readControl_word]
  | symbol isLit c =>
    rw [Atom.toText, List.cons_append, List.singleton_append, closeGroup, h.readControl_symbol]
  | comment line =>
    rw [Atom.toText, List.cons_append, List.append_assoc, List.singleton_append, closeGroup,
      (dropComment_line h).2]
  | char isLit c =>
    refine closeGroup_cons ⟨h.1, ?_, ?_, h.2⟩ rest
    · rintro rfl
      exact hleft isLit rfl
    · rintro rfl
      exact hright isLit rfl
  | note note => exact closeGroup_note (hdepth.resolve_left id) h
  | verbatim isBalanced verbatim =>
    cases isBalanced with
    | false => exact absurd rfl (hverbatim verbatim)
    | true => exact h.2 rfl depth rest (hdepth.resolve_left id)

end Marginalia
