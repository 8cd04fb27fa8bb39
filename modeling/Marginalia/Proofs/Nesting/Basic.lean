import Marginalia.Latex.Vocabulary
import Marginalia.Proofs.Nesting.Atom

/-! # Nesting

Groups nest, and so do the brackets that may become arguments: those behind a command, behind an
argument that has closed, and behind highlighted text, which will stand in the argument of a
wrapper.  `nest` follows a row of atoms and fails where they do not nest.

A bracket can only become an argument if a closing bracket comes behind it, and the option of a
wrapper ends with one; `mayClose` says whether there is a closing bracket or highlighted text to
come.  If not, the bracket does not close in the text (`not_closes`).
-/
namespace Marginalia

open Text Latex Relocation

/-- The groups and brackets that are open, the innermost first, and whether the next bracket may
be that of an argument. -/
structure Nesting where
  groups : List Delimiter
  isReady : Bool
  deriving DecidableEq, Repr

namespace Nesting

/-- Nothing is open, and a bracket would be no argument. -/
def start : Nesting :=
  ⟨[], false⟩

/-- The control symbols that the segmenter keeps out of running text. -/
def isMarkupSymbol (c : Char) : Bool :=
  c == '\\' || c == '(' || c == '['

/-- The characters that can stand between a command and its argument. -/
def isTransparent (c : Char) : Bool :=
  isTexBlank c || c == '*'

/-- Reads a character; `closes` tells whether a bracket that opens here may close. -/
def readChar (nesting : Nesting) (closes isLit : Bool) (c : Char) : Option Nesting :=
  match c with
  | '\x7b' => some ⟨.brace :: nesting.groups, false⟩
  | '[' =>
    some ⟨if nesting.isReady && closes then .bracket :: nesting.groups else nesting.groups, false⟩
  | '\x7d' =>
    match nesting.groups with
    | .brace :: outer => some ⟨outer, true⟩
    | _ => none
  | ']' =>
    match nesting.groups with
    | .bracket :: outer => some ⟨outer, true⟩
    | groups => some ⟨groups, false⟩
  | '$' | '&' => some ⟨nesting.groups, false⟩
  | _ => some ⟨nesting.groups, isLit || isTransparent c && nesting.isReady⟩

/-- Reads an atom.  Verbatim text stands in groups only if its braces balance. -/
def read (nesting : Nesting) (closes : Bool) : Atom → Option Nesting
  | .word _ _ => some ⟨nesting.groups, true⟩
  | .symbol isLit c => some ⟨nesting.groups, isLit && !isMarkupSymbol c⟩
  | .char isLit c => nesting.readChar closes isLit c
  | .comment _ | .note _ => some nesting
  | .verbatim isBalanced _ =>
    if isBalanced || !nesting.groups.contains .brace then some ⟨nesting.groups, false⟩ else none

/-- Whether a wrapper may begin at the atom. -/
def isWrappable : Atom → Bool
  | .word isLit name => isLit && isTextSymbol name
  | .symbol isLit c => isLit && !isMarkupSymbol c
  | .char isLit _ => isLit
  | .comment _ | .note _ | .verbatim _ _ => false

/-- Whether a bracket may close in the atoms behind it, after `depth` groups have. -/
def mayClose (depth : Nat) : List Atom → Bool
  | [] => false
  | atom :: atoms =>
    depth == 0 && isWrappable atom ||
      match atom, depth with
      | .verbatim _ _, _ => true
      | .char _ '\x7b', depth => mayClose (depth + 1) atoms
      | .char _ '\x7d', 0 => false
      | .char _ '\x7d', depth + 1 => mayClose depth atoms
      | .char _ ']', 0 => true
      | _, depth => mayClose depth atoms

/-- Reads a row of atoms. -/
def nest (nesting : Nesting) : List Atom → Option Nesting
  | [] => some nesting
  | atom :: atoms =>
    (nesting.read (mayClose 0 atoms) atom).bind fun next => next.nest atoms

variable {nesting next last : Nesting} {atom : Atom} {atoms front back : List Atom} {text rest : Text}

@[simp] theorem nest_nil (nesting : Nesting) : nesting.nest [] = some nesting := rfl

theorem nest_cons (nesting : Nesting) (atom : Atom) (atoms : List Atom) :
    nesting.nest (atom :: atoms) =
      (nesting.read (mayClose 0 atoms) atom).bind fun next => next.nest atoms := rfl

/-! ### Characters -/

/-- A character that is no delimiter opens and closes nothing. -/
theorem readChar_of_plain {c : Char} (h : Plain c) (nesting : Nesting) (closes isLit : Bool) :
    ∃ isReady, nesting.readChar closes isLit c = some ⟨nesting.groups, isReady⟩ ∧
      (isReady = false → isTransparent c = true → nesting.isReady = false) := by
  unfold readChar
  split
  · exact absurd rfl h.left
  · exact absurd rfl h.leftBracket
  · exact absurd rfl h.right
  · exact absurd rfl h.rightBracket
  · exact ⟨false, rfl, fun _ hc => by cases hc⟩
  · exact ⟨false, rfl, fun _ hc => by cases hc⟩
  · refine ⟨_, rfl, fun hready hc => ?_⟩
    rw [hc, Bool.true_and, Bool.or_eq_false_iff] at hready
    exact hready.2

/-- White space opens and closes nothing. -/
theorem nest_blanks {blanks : List Atom} (h : ∀ atom ∈ blanks, atom.isTexBlank = true)
    (nesting : Nesting) (back : List Atom) :
    ∃ isReady, (isReady = false → nesting.isReady = false) ∧
      nesting.nest (blanks ++ back) = nest ⟨nesting.groups, isReady⟩ back := by
  induction blanks generalizing nesting with
  | nil => exact ⟨nesting.isReady, id, rfl⟩
  | cons atom blanks ih =>
    obtain ⟨hatom, hblanks⟩ := List.forall_mem_cons.mp h
    cases atom with
    | char isLit c =>
      have hc : isTexBlank c = true := hatom
      obtain ⟨isReady, hread, hready⟩ := readChar_of_plain (plain_of_isTexBlank hc) nesting
        (mayClose 0 (blanks ++ back)) isLit
      obtain ⟨isReady', hready', hnest⟩ := ih hblanks ⟨nesting.groups, isReady⟩
      refine ⟨isReady', fun heq => hready (hready' heq) ?_, ?_⟩
      · rw [isTransparent, hc, Bool.true_or]
      · rw [List.cons_append, nest_cons, Nesting.read, hread]
        exact hnest
    | word => cases hatom
    | symbol => cases hatom
    | comment => cases hatom
    | note => cases hatom
    | verbatim => cases hatom

/-! ### Groups -/

/-- What an atom that is no brace does inside a group. -/
theorem read_inner {inner outer : List Delimiter} {isReady closes : Bool}
    (hleft : ∀ isLit, atom ≠ .char isLit '\x7b') (hright : ∀ isLit, atom ≠ .char isLit '\x7d')
    (hread : read ⟨inner ++ .brace :: outer, isReady⟩ closes atom = some next) :
    (∀ text, atom ≠ .verbatim false text) ∧
      ∃ inner', next.groups = inner' ++ .brace :: outer ∧
        inner'.count .brace = inner.count .brace := by
  cases atom with
  | word isLit name =>
    obtain rfl := Option.some.inj hread
    exact ⟨by simp, inner, rfl, rfl⟩
  | symbol isLit c =>
    obtain rfl := Option.some.inj hread
    exact ⟨by simp, inner, rfl, rfl⟩
  | comment line =>
    obtain rfl := Option.some.inj hread
    exact ⟨by simp, inner, rfl, rfl⟩
  | note note =>
    obtain rfl := Option.some.inj hread
    exact ⟨by simp, inner, rfl, rfl⟩
  | verbatim isBalanced text =>
    cases isBalanced with
    | true =>
      obtain rfl := Option.some.inj hread
      exact ⟨by simp, inner, rfl, rfl⟩
    -- Verbatim text that does not balance is refused while a brace is open.
    | false =>
      have hbrace : (inner ++ .brace :: outer).contains .brace = true := by simp
      simp only [read, hbrace, Bool.not_true, Bool.or_self, Bool.false_eq_true, if_false] at hread
      cases hread
  | char isLit c =>
    refine ⟨by simp, ?_⟩
    change readChar _ closes isLit c = some next at hread
    unfold readChar at hread
    -- Brackets come and go among the inner groups; the brace below them is out of their reach.
    split at hread
    · exact absurd rfl (hleft isLit)
    · obtain rfl := Option.some.inj hread
      dsimp only
      split
      · exact ⟨.bracket :: inner, rfl, List.count_cons_of_ne (by decide)⟩
      · exact ⟨inner, rfl, rfl⟩
    · exact absurd rfl (hright isLit)
    · cases inner with
      | nil =>
        obtain rfl := Option.some.inj hread
        exact ⟨[], rfl, rfl⟩
      | cons delimiter inner =>
        cases delimiter with
        | brace =>
          obtain rfl := Option.some.inj hread
          exact ⟨.brace :: inner, rfl, rfl⟩
        | bracket =>
          obtain rfl := Option.some.inj hread
          exact ⟨inner, rfl, (List.count_cons_of_ne (by decide)).symm⟩
    · obtain rfl := Option.some.inj hread
      exact ⟨inner, rfl, rfl⟩
    · obtain rfl := Option.some.inj hread
      exact ⟨inner, rfl, rfl⟩
    · obtain rfl := Option.some.inj hread
      exact ⟨inner, rfl, rfl⟩

/-- **A group ends between two atoms that nest**, and what was open around it is open again behind
it. -/
theorem nest_closeGroup {inner outer : List Delimiter} {isReady : Bool} (h : WellSpelled atoms)
    (hnest : nest ⟨inner ++ .brace :: outer, isReady⟩ atoms = some last)
    (hclose : closeGroup (inner.count .brace + 1) (spell atoms) = .closed rest) :
    ∃ back, back <:+ atoms ∧ spell back = rest ∧ nest ⟨outer, true⟩ back = some last := by
  induction atoms generalizing inner isReady with
  | nil =>
    rw [spell_nil, closeGroup] at hclose
    cases hclose
  | cons atom atoms ih =>
    -- What is left behind the first atom ends all of the atoms.
    have hnext {inner' : List Delimiter} {isReady' : Bool}
        (hnest : nest ⟨inner' ++ .brace :: outer, isReady'⟩ atoms = some last)
        (hclose : closeGroup (inner'.count .brace + 1) (spell atoms) = .closed rest) :
        ∃ back, back <:+ atom :: atoms ∧ spell back = rest ∧
          nest ⟨outer, true⟩ back = some last := by
      obtain ⟨back, hback, hrest, hlast⟩ := ih h.2 hnest hclose
      exact ⟨back, hback.trans (List.suffix_cons _ _), hrest, hlast⟩
    by_cases hleft : ∃ isLit, atom = .char isLit '\x7b'
    · obtain ⟨isLit, rfl⟩ := hleft
      rw [spell_cons, Atom.toText, List.singleton_append, closeGroup] at hclose
      refine @hnext (.brace :: inner) false hnest ?_
      rwa [List.count_cons_self]
    by_cases hright : ∃ isLit, atom = .char isLit '\x7d'
    · obtain ⟨isLit, rfl⟩ := hright
      rw [spell_cons, Atom.toText, List.singleton_append, closeGroup] at hclose
      cases inner with
      | nil =>
        rw [if_pos (by simp)] at hclose
        exact ⟨atoms, List.suffix_cons _ _, Closing.closed.inj hclose, hnest⟩
      | cons delimiter inner =>
        cases delimiter with
        | bracket => cases hnest
        | brace =>
          rw [List.count_cons_self, if_neg (by omega), Nat.add_sub_cancel] at hclose
          exact hnext hnest hclose
    · have hleft' : ∀ isLit, atom ≠ .char isLit '\x7b' := fun isLit heq => hleft ⟨isLit, heq⟩
      have hright' : ∀ isLit, atom ≠ .char isLit '\x7d' := fun isLit heq => hright ⟨isLit, heq⟩
      rw [nest_cons] at hnest
      obtain ⟨next, hread, hlast⟩ := Option.bind_eq_some_iff.mp hnest
      obtain ⟨hverbatim, inner', hgroups, hcount⟩ := read_inner hleft' hright' hread
      rw [spell_cons, closeGroup_atom h.1 (.inr (Nat.le_add_left 1 _)) hverbatim hleft' hright',
        ← hcount] at hclose
      refine @hnext inner' next.isReady ?_ hclose
      rwa [← hgroups]

/-- A group behind white space begins with a brace among the atoms. -/
theorem exists_group {body : Text} (h : WellSpelled atoms)
    (hgroup : readGroup? (skipBlanks (spell atoms)) = some (body, rest)) :
    ∃ blanks isLit group, atoms = blanks ++ .char isLit '\x7b' :: group ∧
      (∀ atom ∈ blanks, atom.isTexBlank = true) ∧ closeGroup 1 (spell group) = .closed rest := by
  obtain ⟨blanks, after, rfl, hblanks, hskip⟩ := exists_skipBlanks h
  obtain ⟨inner, hinner, hread⟩ := readGroup?_replace hgroup
  rw [hskip] at hinner
  obtain ⟨isLit, group, rfl, hspell⟩ :=
    eq_char_of_spell_eq_cons h.right hinner (by decide) (by decide)
  exact ⟨blanks, isLit, group, rfl, hblanks, by rw [hspell, (hread rest).2]⟩

/-- A group behind white space ends between two atoms that nest. -/
theorem nest_readGroup? {body : Text} (h : WellSpelled atoms) (hnest : nesting.nest atoms = some last)
    (hgroup : readGroup? (skipBlanks (spell atoms)) = some (body, rest)) :
    ∃ back, back <:+ atoms ∧ spell back = rest ∧ nest ⟨nesting.groups, true⟩ back = some last := by
  obtain ⟨blanks, isLit, group, rfl, hblanks, hclose⟩ := exists_group h hgroup
  obtain ⟨isReady, -, hbehind⟩ := nest_blanks hblanks nesting (.char isLit '\x7b' :: group)
  have hopened : nest ⟨[] ++ .brace :: nesting.groups, false⟩ group = some last :=
    hbehind.symm.trans hnest
  obtain ⟨back, hback, hrest, hend⟩ := nest_closeGroup h.right.2 hopened hclose
  refine ⟨back, ?_, hrest, hend⟩
  exact (hback.trans (List.suffix_cons _ _)).trans (List.suffix_append blanks _)

/-! ### Brackets that do not close -/

/-- A character that closes nothing and opens no group. -/
theorem mayClose_char {c : Char} (hleft : c ≠ '\x7b') (hright : c ≠ '\x7d') (hbracket : c ≠ ']')
    (isLit : Bool) (depth : Nat) (atoms : List Atom) :
    mayClose depth (.char isLit c :: atoms) = (depth == 0 && isLit || mayClose depth atoms) := by
  rw [mayClose]
  · rfl
  · simp
  · exact fun _ heq => hleft (Atom.char.inj heq).2
  · exact fun _ heq _ => hright (Atom.char.inj heq).2
  · exact fun _ _ heq _ => hright (Atom.char.inj heq).2
  · exact fun _ heq _ => hbracket (Atom.char.inj heq).2

/-- A bracket that may not close does not close in the text. -/
theorem not_closes {depth : Nat} (h : WellSpelled atoms) (hmay : mayClose depth atoms = false) :
    ¬ Closes depth (spell atoms) := by
  induction atoms generalizing depth with
  | nil =>
    cases depth with
    | zero => simp [Closes, BracketCloses, scanBracket]
    | succ depth => simp [Closes, closeGroup]
  | cons atom atoms ih =>
    obtain ⟨-, hbehind⟩ := Bool.or_eq_false_iff.mp hmay
    cases atom with
    | word isLit name =>
      rw [spell_cons, Atom.toText, List.cons_append, closes_escape, h.1.readControl_word]
      exact ih h.2 hbehind
    | symbol isLit c =>
      rw [spell_cons, Atom.toText, List.cons_append, List.singleton_append, closes_escape,
        h.1.readControl_symbol]
      exact ih h.2 hbehind
    | comment line =>
      rw [spell_cons, Atom.toText, List.cons_append, List.append_assoc, List.singleton_append,
        closes_comment, (dropComment_line h.1).2]
      exact ih h.2 hbehind
    | note note =>
      rw [spell_cons, Atom.toText, (h.1 (spell atoms)).closes_note]
      exact ih h.2 hbehind
    -- A bracket may always close behind verbatim text, so there is nothing to show.
    | verbatim isBalanced text => cases hbehind
    | char isLit c =>
      rw [spell_cons, Atom.toText, List.singleton_append]
      by_cases hleft : c = '\x7b'
      · subst hleft
        rw [closes_left]
        exact ih h.2 hbehind
      by_cases hright : c = '\x7d'
      · subst hright
        cases depth with
        | zero => exact not_closes_zero_right (spell atoms)
        | succ depth =>
          rw [closes_succ_right]
          exact ih h.2 hbehind
      by_cases hbracket : c = ']'
      · subst hbracket
        cases depth with
        | zero => cases hbehind
        | succ depth =>
          rw [closes_succ_rightBracket]
          exact ih h.2 hbehind
      · rw [mayClose_char hleft hright hbracket, Bool.or_eq_false_iff] at hmay
        rw [closes_cons ⟨h.1.1, hleft, hright, h.1.2⟩ hbracket]
        exact ih h.2 hmay.2

end Nesting

end Marginalia
