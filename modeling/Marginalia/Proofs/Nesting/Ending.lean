import Marginalia.Proofs.Nesting.Basic
import Marginalia.Segment

/-! # Readers of the segmenter

Scanners go into notes and verbatim text.  Where there are none (`Scanned`), every reader of the
segmenter goes from atom to atom, so what it leaves is spelled by the atoms that are left (`Ends`).
-/
namespace Marginalia

open Text Latex Relocation

/-- The atoms are what they seem, and every scanner reads them as that. -/
structure Scanned (atoms : List Atom) : Prop where
  wellSpelled : WellSpelled atoms
  scanned : ∀ atom ∈ atoms, atom.IsScanned

variable {atom : Atom} {atoms front back : List Atom} {text rest : Text}

theorem Scanned.head (h : Scanned (atom :: atoms)) : atom.Stands (spell atoms) :=
  h.wellSpelled.1

theorem Scanned.of_suffix (h : Scanned atoms) (hsuffix : back <:+ atoms) : Scanned back :=
  ⟨h.wellSpelled.of_suffix hsuffix, fun atom hatom => h.scanned atom (hsuffix.subset hatom)⟩

theorem Scanned.left (h : Scanned (front ++ back)) : Scanned front :=
  ⟨h.wellSpelled.left, fun atom hatom => h.scanned atom (List.mem_append_left back hatom)⟩

theorem Scanned.tail (h : Scanned (atom :: atoms)) : Scanned atoms :=
  h.of_suffix (List.suffix_cons atom atoms)

/-! ### What is left -/

/-- The text is spelled by the last of the atoms. -/
def Ends (atoms : List Atom) (text : Text) : Prop :=
  ∃ back, back <:+ atoms ∧ spell back = text

theorem ends_self (atoms : List Atom) : Ends atoms (spell atoms) :=
  ⟨atoms, List.suffix_refl atoms, rfl⟩

theorem Ends.of_suffix (h : Ends back text) (hsuffix : back <:+ atoms) : Ends atoms text := by
  obtain ⟨last, hlast, htext⟩ := h
  exact ⟨last, hlast.trans hsuffix, htext⟩

theorem Ends.cons (h : Ends atoms text) (atom : Atom) : Ends (atom :: atoms) text :=
  h.of_suffix (List.suffix_cons atom atoms)

/-! ### Scans -/

theorem ends_skipBlanks (h : Scanned atoms) : Ends atoms (skipBlanks (spell atoms)) := by
  obtain ⟨blanks, back, rfl, -, hskip⟩ := exists_skipBlanks h.wellSpelled
  exact ⟨back, List.suffix_append blanks back, hskip.symm⟩

/-- A group that closes, behind its opening brace. -/
theorem ends_group (h : Scanned atoms) {depth : Nat}
    (hclose : closeGroup depth (spell atoms) = .closed rest) : Ends atoms rest := by
  induction atoms generalizing depth with
  | nil =>
    rw [spell_nil, closeGroup] at hclose
    cases hclose
  | cons atom atoms ih =>
    have hscanned : atom.IsScanned := h.scanned atom List.mem_cons_self
    by_cases hleft : ∃ isLit, atom = .char isLit '\x7b'
    · obtain ⟨isLit, rfl⟩ := hleft
      rw [spell_cons, Atom.toText, List.singleton_append, closeGroup] at hclose
      exact (ih h.tail hclose).cons _
    by_cases hright : ∃ isLit, atom = .char isLit '\x7d'
    · obtain ⟨isLit, rfl⟩ := hright
      rw [spell_cons, Atom.toText, List.singleton_append, closeGroup] at hclose
      split at hclose
      · obtain rfl := Closing.closed.inj hclose
        exact (ends_self atoms).cons _
      · exact (ih h.tail hclose).cons _
    · rw [spell_cons, closeGroup_atom h.head (.inl hscanned) ?_ (fun isLit heq => hleft ⟨isLit, heq⟩)
        (fun isLit heq => hright ⟨isLit, heq⟩)] at hclose
      · exact (ih h.tail hclose).cons atom
      · rintro text rfl
        exact hscanned

/-- Behind a character that is no escape and no comment's, the rest ends the atoms. -/
theorem exists_char {c : Char} (h : Scanned atoms) (htext : Ends atoms (c :: text))
    (hescape : c ≠ '\\') (hcomment : c ≠ '%') :
    ∃ isLit back, .char isLit c :: back <:+ atoms ∧ spell back = text ∧ Scanned back := by
  obtain ⟨last, hlast, hspell⟩ := htext
  have hscanned := h.of_suffix hlast
  obtain ⟨isLit, back, rfl, hback⟩ :=
    eq_char_of_spell_eq_cons hscanned.wellSpelled hspell hescape hcomment
  exact ⟨isLit, back, hlast, hback, hscanned.tail⟩

theorem ends_scanBracket (h : Scanned atoms) (hscan : scanBracket (spell atoms) = .closed rest) :
    Ends atoms rest := by
  -- The induction is on the length, since a group takes several atoms at once.
  induction hlength : atoms.length using Nat.strongRecOn generalizing atoms with
  | ind length ih =>
    cases atoms with
    | nil =>
      rw [spell_nil, scanBracket] at hscan
      cases hscan
    | cons atom atoms =>
      have hnext (hnext : scanBracket (spell atoms) = .closed rest) : Ends (atom :: atoms) rest :=
        (ih atoms.length (by rw [← hlength]; exact Nat.lt_succ_self _) h.tail hnext rfl).cons atom
      cases atom with
      | word isLit name =>
        rw [spell_cons, Atom.toText, List.cons_append, scanBracket, h.head.readControl_word] at hscan
        exact hnext hscan
      | symbol isLit c =>
        rw [spell_cons, Atom.toText, List.cons_append, List.singleton_append, scanBracket,
          h.head.readControl_symbol] at hscan
        exact hnext hscan
      | comment line =>
        rw [spell_cons, Atom.toText, List.cons_append, List.append_assoc, List.singleton_append,
          scanBracket, (dropComment_line h.head).2] at hscan
        exact hnext hscan
      | note note => exact absurd (h.scanned _ List.mem_cons_self) id
      | verbatim isBalanced text => exact absurd (h.scanned _ List.mem_cons_self) id
      | char isLit c =>
        rw [spell_cons, Atom.toText, List.singleton_append] at hscan
        by_cases hleft : c = '\x7b'
        · subst hleft
          rw [scanBracket_left] at hscan
          split at hscan
          · next after hclose =>
            obtain ⟨back, hback, rfl⟩ := ends_group h.tail hclose
            have hlt : back.length < length := by
              have := hback.length_le
              rw [← hlength, List.length_cons]
              omega
            have hends := ih back.length hlt (h.tail.of_suffix hback) hscan rfl
            exact (hends.of_suffix hback).cons _
          · cases hscan
        by_cases hright : c = '\x7d'
        · subst hright
          rw [scanBracket] at hscan
          cases hscan
        by_cases hbracket : c = ']'
        · subst hbracket
          rw [scanBracket] at hscan
          obtain rfl := BracketScan.closed.inj hscan
          exact (ends_self atoms).cons _
        · rw [scanBracket_cons ⟨h.head.1, hleft, hright, h.head.2⟩ hbracket] at hscan
          exact hnext hscan

theorem ends_readBracket? (h : Scanned atoms) (hread : readBracket? (spell atoms) = some rest) :
    Ends atoms rest := by
  unfold readBracket? at hread
  split at hread
  · next text htext =>
    split at hread
    · next after hscan =>
      obtain rfl : after = rest := Option.some.inj hread
      obtain ⟨isLit, back, hback, rfl, hscanned⟩ :=
        exists_char h (htext ▸ ends_self atoms) (by decide) (by decide)
      exact (ends_scanBracket hscanned hscan).of_suffix ((List.suffix_cons _ _).trans hback)
    · cases hread
  · cases hread

namespace MathDelimiter

theorem close?_cons {delimiter : MathDelimiter} {c : Char} (hescape : c ≠ '\\') (hcomment : c ≠ '%')
    (hdollar : c ≠ '$') (text : Text) : delimiter.close? (c :: text) = delimiter.close? text := by
  rw [close?]
  · exact hescape
  · exact hcomment
  · exact hdollar

/-- Mathematics ends between two atoms. -/
theorem ends_close? {delimiter : MathDelimiter} (h : Scanned atoms)
    (hclose : delimiter.close? (spell atoms) = some rest) : Ends atoms rest := by
  induction atoms with
  | nil =>
    rw [spell_nil, close?] at hclose
    cases hclose
  | cons atom atoms ih =>
    have hnext (hnext : delimiter.close? (spell atoms) = some rest) : Ends (atom :: atoms) rest :=
      (ih h.tail hnext).cons atom
    -- A control sequence either ends the mathematics or is passed over.
    have hcontrol {control : Control} {text : Text} (hread : readControl text = (control, spell atoms))
        (hclose : delimiter.close? ('\\' :: text) = some rest) : Ends (atom :: atoms) rest := by
      rw [close?, hread] at hclose
      split at hclose
      · obtain rfl := Option.some.inj hclose
        exact (ends_self atoms).cons atom
      · exact hnext hclose
    cases atom with
    | word isLit name => exact hcontrol h.head.readControl_word hclose
    | symbol isLit c => exact hcontrol h.head.readControl_symbol hclose
    | comment line =>
      rw [spell_cons, Atom.toText, List.cons_append, List.append_assoc, List.singleton_append,
        close?, (dropComment_line h.head).2] at hclose
      exact hnext hclose
    | note note => exact absurd (h.scanned _ List.mem_cons_self) id
    | verbatim isBalanced text => exact absurd (h.scanned _ List.mem_cons_self) id
    | char isLit c =>
      rw [spell_cons, Atom.toText, List.singleton_append] at hclose
      by_cases hdollar : c = '$'
      · subst hdollar
        rw [close?] at hclose
        split at hclose
        · obtain rfl := Option.some.inj hclose
          exact (ends_self atoms).cons _
        · split at hclose
          · next hdouble =>
            obtain ⟨tail, htail⟩ := List.head?_eq_some_iff.mp hdouble.2
            rw [htail, List.tail_cons] at hclose
            obtain rfl := Option.some.inj hclose
            obtain ⟨isLit', back, hback, rfl, -⟩ :=
              exists_char h.tail (htail ▸ ends_self atoms) (by decide) (by decide)
            exact ((ends_self back).of_suffix ((List.suffix_cons _ _).trans hback)).cons _
          · exact hnext hclose
      · rw [close?_cons h.head.1 h.head.2 hdollar] at hclose
        exact hnext hclose

end MathDelimiter

namespace Segmenter

/-! ### Arguments -/

theorem ends_optionalArguments (h : Scanned atoms) :
    Ends atoms (optionalArguments (spell atoms)) := by
  induction hlength : atoms.length using Nat.strongRecOn generalizing atoms with
  | ind length ih =>
    rw [optionalArguments]
    split
    · next rest hread =>
      obtain ⟨back, hback, hskip⟩ := ends_skipBlanks h
      rw [← hskip] at hread
      have hlt : rest.length < (spell back).length := readBracket?_length hread
      obtain ⟨last, hlast, rfl⟩ := ends_readBracket? (h.of_suffix hback) hread
      have hsuffix := hlast.trans hback
      have hne : last.length ≠ back.length := by
        intro heq
        rw [hlast.eq_of_length heq] at hlt
        omega
      have hlength' : last.length < length := by
        have := hlast.length_le
        have := hback.length_le
        omega
      exact (ih last.length hlength' (h.of_suffix hsuffix) rfl).of_suffix hsuffix
    · exact ends_self atoms

theorem ends_rawArgument {content : Text} (h : Scanned atoms)
    (hread : rawArgument (spell atoms) = .read content rest) : Ends atoms rest := by
  obtain ⟨back, hback, hskip⟩ := ends_skipBlanks h
  have hoptional := (ends_optionalArguments (h.of_suffix hback)).of_suffix hback
  unfold rawArgument at hread
  rw [← hskip] at hread
  split at hread
  · next body hbody =>
    obtain ⟨isLit, group, hgroup, rfl, hscanned⟩ :=
      exists_char h (hbody ▸ hoptional) (by decide) (by decide)
    split at hread
    · next after hclose =>
      obtain ⟨-, rfl⟩ := RawArgument.read.inj hread
      exact (ends_group hscanned hclose).of_suffix
        ((List.suffix_cons _ _).trans hgroup)
    · cases hread
  · cases hread

theorem ends_rawArguments {n : Nat} (h : Scanned atoms)
    (hread : rawArguments n (spell atoms) = .closed rest) : Ends atoms rest := by
  induction n generalizing atoms with
  | zero =>
    obtain rfl := Closing.closed.inj hread
    exact ends_self atoms
  | succ n ih =>
    simp only [rawArguments] at hread
    split at hread
    · obtain rfl := Closing.closed.inj hread
      exact ends_self atoms
    · next content after hargument =>
      obtain ⟨back, hback, rfl⟩ := ends_rawArgument h hargument
      exact (ih (h.of_suffix hback) hread).of_suffix hback
    · cases hread

theorem ends_commandArguments {name : String} {count : Nat} (h : Scanned atoms)
    (hread : commandArguments name count (spell atoms) = .closed rest) : Ends atoms rest := by
  unfold commandArguments at hread
  split at hread
  · split at hread
    · obtain rfl := Closing.closed.inj hread
      exact ends_self atoms
    · next content after hargument =>
      obtain ⟨back, hback, rfl⟩ := ends_rawArgument h hargument
      exact (ends_rawArguments (h.of_suffix hback) hread).of_suffix hback
    · cases hread
  · exact ends_rawArguments h hread

theorem ends_dropStar (h : Scanned atoms) : Ends atoms (dropStar (spell atoms)) := by
  unfold dropStar
  split
  · next text htext =>
    obtain ⟨isLit, back, hback, rfl, -⟩ :=
      exists_char h (htext ▸ ends_self atoms) (by decide) (by decide)
    exact (ends_self back).of_suffix ((List.suffix_cons _ _).trans hback)
  · exact ends_self atoms

theorem ends_dropWhile {p : Char → Bool} (hescape : p '\\' = false) (hcomment : p '%' = false)
    (h : Scanned atoms) : Ends atoms ((spell atoms).dropWhile p) := by
  induction atoms with
  | nil => exact ends_self []
  | cons atom atoms ih =>
    have hstay {c : Char} {text : Text} (hc : p c = false)
        (htext : spell (atom :: atoms) = c :: text) :
        Ends (atom :: atoms) ((spell (atom :: atoms)).dropWhile p) := by
      rw [htext, List.dropWhile_cons_of_neg (by simp [hc]), ← htext]
      exact ends_self _
    cases atom with
    | word isLit name => exact hstay hescape rfl
    | symbol isLit c => exact hstay hescape rfl
    | comment line => exact hstay hcomment rfl
    | note note => exact absurd (h.scanned _ List.mem_cons_self) id
    | verbatim isBalanced text => exact absurd (h.scanned _ List.mem_cons_self) id
    | char isLit c =>
      by_cases hc : p c = true
      · have hdrop : (spell (.char isLit c :: atoms)).dropWhile p = (spell atoms).dropWhile p :=
          List.dropWhile_cons_of_pos hc
        rw [hdrop]
        exact (ih h.tail).cons _
      · exact hstay (by simpa using hc) rfl

theorem ends_definitionHead (h : Scanned atoms) : Ends atoms (definitionHead (spell atoms)) := by
  have hdrop {text : Text} (htext : Ends atoms text) :
      Ends atoms (text.dropWhile fun c => c == '#' || c.isDigit) := by
    obtain ⟨back, hback, rfl⟩ := htext
    exact (ends_dropWhile (by decide) (by decide) (h.of_suffix hback)).of_suffix hback
  unfold definitionHead
  dsimp only
  split
  · next name hskip =>
    refine hdrop ?_
    obtain ⟨last, hlast, hspell⟩ := ends_skipBlanks h
    rw [hskip] at hspell
    have hscanned := h.of_suffix hlast
    refine Ends.of_suffix ?_ hlast
    cases last with
    | nil => cases hspell
    | cons atom last =>
      cases atom with
      | word isLit word =>
        obtain rfl : word.toList ++ spell last = name := (List.cons.inj hspell).2
        rw [hscanned.head.readControl_word]
        exact (ends_self last).cons _
      | symbol isLit c =>
        obtain rfl : c :: spell last = name := (List.cons.inj hspell).2
        rw [hscanned.head.readControl_symbol]
        exact (ends_self last).cons _
      | comment line => exact absurd (List.cons.inj hspell).1 (by decide)
      | char isLit c => exact absurd (List.cons.inj hspell).1 hscanned.head.1
      | note note => exact absurd (hscanned.scanned _ List.mem_cons_self) id
      | verbatim isBalanced text => exact absurd (hscanned.scanned _ List.mem_cons_self) id
  · exact hdrop (ends_self atoms)

end Segmenter

end Marginalia
