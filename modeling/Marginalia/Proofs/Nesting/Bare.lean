import Marginalia.Proofs.Nesting.Pass

/-! # Atoms without opening brackets

Where no bracket opens (`Atom.IsBare`), the groups that the pass has open are those that `nest` has
open: a step of the pass fails or does to them what `nest` does (`follows`).  So the pass accepts the
text exactly if the atoms nest (`relocate_ok_iff_nest`).
-/
namespace Marginalia

open Text Latex Relocation

/-- No bracket opens at the atom, and a scan over groups passes over it if it is verbatim text. -/
def Atom.IsBare : Atom → Prop
  | char _ c => c ≠ '['
  | verbatim isBalanced _ => isBalanced = true
  | _ => True

/-- A run of the pass has these groups open, and no bracket. -/
structure Mirrors (groups : List Delimiter) (skeleton : Skeleton) : Prop where
  frames : skeleton.frames.map Prod.fst = groups
  braces : .bracket ∉ groups

theorem mirrors_start : Mirrors [] .start :=
  ⟨rfl, List.not_mem_nil⟩

theorem Mirrors.of_frames {groups : List Delimiter} {skeleton mid : Skeleton}
    (h : Mirrors groups skeleton) (hframes : mid.frames = skeleton.frames) : Mirrors groups mid :=
  ⟨by rw [hframes, h.frames], h.braces⟩

namespace Relocation

/-- Only delimiters open and close groups. -/
def Lexeme.KeepsGroups : Lexeme → Prop
  | left _ => False
  | right _ => False
  | _ => True

theorem Skeleton.act_frames {skeleton mid : Skeleton} {lexeme : Lexeme} {closes : Bool}
    (hact : skeleton.act lexeme closes = some mid) (hkeeps : lexeme.KeepsGroups) :
    mid.frames = skeleton.frames := by
  cases lexeme with
  | left delimiter => cases hkeeps
  | right delimiter => cases hkeeps
  | brokenNote => cases hact
  | blanks isParagraph =>
    cases isParagraph with
    | true =>
      obtain rfl := Option.some.inj hact
      rfl
    | false =>
      obtain rfl := Option.some.inj hact
      rfl
  | _ =>
    obtain rfl := Option.some.inj hact
    rfl

end Relocation

namespace Nesting

variable {skeleton last : Skeleton} {groups outer : List Delimiter} {atom : Atom}
  {atoms front back : List Atom} {rest : Text} {lexeme : Lexeme}

/-- A bare atom that is no brace leaves the groups as they are. -/
theorem read_bare (hbare : atom.IsBare) (hleft : ∀ isLit, atom ≠ .char isLit '\x7b')
    (hright : ∀ isLit, atom ≠ .char isLit '\x7d') (hgroups : .bracket ∉ groups)
    (isReady closes : Bool) :
    ∃ isReady', read ⟨groups, isReady⟩ closes atom = some ⟨groups, isReady'⟩ := by
  cases atom with
  | word isLit name => exact ⟨true, rfl⟩
  | symbol isLit c => exact ⟨_, rfl⟩
  | comment line => exact ⟨isReady, rfl⟩
  | note note => exact ⟨isReady, rfl⟩
  | verbatim isBalanced text =>
    obtain rfl : isBalanced = true := hbare
    exact ⟨false, rfl⟩
  | char isLit c =>
    change ∃ isReady', readChar ⟨groups, isReady⟩ closes isLit c = some ⟨groups, isReady'⟩
    unfold readChar
    split
    · exact absurd rfl (hleft isLit)
    · exact absurd rfl hbare
    · exact absurd rfl (hright isLit)
    · cases groups with
      | nil => exact ⟨false, rfl⟩
      | cons delimiter outer =>
        cases delimiter with
        | brace => exact ⟨false, rfl⟩
        | bracket => exact absurd List.mem_cons_self hgroups
    · exact ⟨false, rfl⟩
    · exact ⟨false, rfl⟩
    · exact ⟨_, rfl⟩

/-- A group of bare atoms ends between two of them, and is passed over. -/
theorem nest_closeGroup_bare {depth : Nat} (h : WellSpelled atoms)
    (hbare : ∀ atom ∈ atoms, atom.IsBare) (houter : .bracket ∉ outer)
    (hclose : closeGroup (depth + 1) (spell atoms) = .closed rest) (isReady : Bool) :
    ∃ back, back <:+ atoms ∧ spell back = rest ∧
      nest ⟨List.replicate (depth + 1) .brace ++ outer, isReady⟩ atoms = nest ⟨outer, true⟩ back := by
  induction atoms generalizing depth isReady with
  | nil =>
    rw [spell_nil, closeGroup] at hclose
    cases hclose
  | cons atom atoms ih =>
    obtain ⟨hatom, hatoms⟩ := List.forall_mem_cons.mp hbare
    -- What is left behind the first atom ends all of the atoms.
    have hnext {depth' : Nat} {isReady' : Bool}
        (hnest : nest ⟨List.replicate (depth + 1) .brace ++ outer, isReady⟩ (atom :: atoms) =
          nest ⟨List.replicate (depth' + 1) .brace ++ outer, isReady'⟩ atoms)
        (hclose : closeGroup (depth' + 1) (spell atoms) = .closed rest) :
        ∃ back, back <:+ atom :: atoms ∧ spell back = rest ∧
          nest ⟨List.replicate (depth + 1) .brace ++ outer, isReady⟩ (atom :: atoms) =
            nest ⟨outer, true⟩ back := by
      obtain ⟨back, hback, hrest, hend⟩ := ih h.2 hatoms hclose isReady'
      exact ⟨back, hback.trans (List.suffix_cons _ _), hrest, hnest.trans hend⟩
    by_cases hleft : ∃ isLit, atom = .char isLit '\x7b'
    · obtain ⟨isLit, rfl⟩ := hleft
      rw [spell_cons, Atom.toText, List.singleton_append, closeGroup] at hclose
      exact @hnext (depth + 1) false rfl hclose
    by_cases hright : ∃ isLit, atom = .char isLit '\x7d'
    · obtain ⟨isLit, rfl⟩ := hright
      rw [spell_cons, Atom.toText, List.singleton_append, closeGroup] at hclose
      cases depth with
      | zero =>
        rw [if_pos (Nat.le_refl 1)] at hclose
        exact ⟨atoms, List.suffix_cons _ _, Closing.closed.inj hclose, rfl⟩
      | succ depth =>
        rw [if_neg (by omega), Nat.add_sub_cancel] at hclose
        exact @hnext depth true rfl hclose
    · have hleft' : ∀ isLit, atom ≠ .char isLit '\x7b' := fun isLit heq => hleft ⟨isLit, heq⟩
      have hright' : ∀ isLit, atom ≠ .char isLit '\x7d' := fun isLit heq => hright ⟨isLit, heq⟩
      have hverbatim : ∀ text, atom ≠ .verbatim false text := by
        rintro text rfl
        cases hatom
      -- A closing bracket closes nothing, since no bracket is open.
      have hgroups : .bracket ∉ List.replicate (depth + 1) Delimiter.brace ++ outer := by
        simpa [List.mem_replicate] using houter
      rw [spell_cons, closeGroup_atom h.1 (.inr (Nat.le_add_left 1 _)) hverbatim hleft' hright']
        at hclose
      obtain ⟨isReady', hread⟩ := read_bare hatom hleft' hright' hgroups isReady (mayClose 0 atoms)
      refine @hnext depth isReady' ?_ hclose
      rw [nest_cons, hread]
      rfl

/-- A group of bare atoms behind white space is passed over. -/
theorem nest_readGroup?_bare {body : Text} (h : WellSpelled atoms)
    (hbare : ∀ atom ∈ atoms, atom.IsBare) (hgroups : .bracket ∉ groups)
    (hgroup : readGroup? (skipBlanks (spell atoms)) = some (body, rest)) (isReady : Bool) :
    ∃ back, back <:+ atoms ∧ spell back = rest ∧
      nest ⟨groups, isReady⟩ atoms = nest ⟨groups, true⟩ back := by
  obtain ⟨blanks, isLit, group, rfl, hblanks, hclose⟩ := exists_group h hgroup
  have hmembers : ∀ atom ∈ group, atom.IsBare := fun atom hatom =>
    hbare atom (List.mem_append_right blanks (List.mem_cons_of_mem _ hatom))
  obtain ⟨isReady', -, hbehind⟩ := nest_blanks hblanks ⟨groups, isReady⟩ (.char isLit '\x7b' :: group)
  obtain ⟨back, hback, hrest, hend⟩ :=
    nest_closeGroup_bare h.right.2 hmembers hgroups hclose false
  refine ⟨back, ?_, hrest, hbehind.trans hend⟩
  exact (hback.trans (List.suffix_cons _ _)).trans (List.suffix_append blanks _)

/-! ### Steps -/

/-- A step of the pass reads the first of the atoms and, unless it fails, does to the groups what
`nest` does. -/
def Follows (skeleton : Skeleton) (groups : List Delimiter) (atoms : List Atom) : Prop :=
  ∃ lexeme piece back, back <:+ atoms ∧ spell atoms = piece ++ spell back ∧
    Begins lexeme piece (spell back) ∧
    ∀ mid, skeleton.act lexeme (bracketCloses (spell back)) = some mid →
      ∃ groups', Mirrors groups' mid ∧
        ∀ isReady, ∃ isReady', nest ⟨groups, isReady⟩ atoms = nest ⟨groups', isReady'⟩ back

/-- A step over atoms without delimiters. -/
theorem follows_passed (hmirrors : Mirrors groups skeleton)
    (hbegins : Begins lexeme (spell front) (spell back)) (hkeeps : lexeme.KeepsGroups)
    (hnest : ∀ isReady, ∃ isReady',
      nest ⟨groups, isReady⟩ (front ++ back) = nest ⟨groups, isReady'⟩ back) :
    Follows skeleton groups (front ++ back) :=
  ⟨lexeme, spell front, back, List.suffix_append front back, spell_append front back, hbegins,
    fun _ hmid => ⟨groups, hmirrors.of_frames (Skeleton.act_frames hmid hkeeps), hnest⟩⟩

/-- A step over an atom that is no brace. -/
theorem follows_atom (hmirrors : Mirrors groups skeleton)
    (hbegins : Begins lexeme atom.toText (spell atoms)) (hkeeps : lexeme.KeepsGroups)
    (hbare : atom.IsBare) (hleft : ∀ isLit, atom ≠ .char isLit '\x7b')
    (hright : ∀ isLit, atom ≠ .char isLit '\x7d') :
    Follows skeleton groups (atom :: atoms) := by
  have hfront : Begins lexeme (spell [atom]) (spell atoms) := by
    rwa [spell_cons, spell_nil, List.append_nil]
  refine follows_passed hmirrors hfront hkeeps fun isReady => ?_
  obtain ⟨isReady', hread⟩ :=
    read_bare hbare hleft hright hmirrors.braces isReady (mayClose 0 atoms)
  refine ⟨isReady', ?_⟩
  rw [List.singleton_append, nest_cons, hread]
  rfl

theorem follows_left {isLit : Bool} (hmirrors : Mirrors groups skeleton) :
    Follows skeleton groups (.char isLit '\x7b' :: atoms) := by
  refine ⟨_, ['\x7b'], atoms, List.suffix_cons _ _, rfl,
    (@Lexes.left .brace (spell atoms)).begins, ?_⟩
  intro mid hmid
  obtain rfl := Option.some.inj hmid
  refine ⟨.brace :: groups, ⟨?_, ?_⟩, fun _ => ⟨false, rfl⟩⟩
  · rw [Skeleton.openFrame, List.map_cons, hmirrors.frames]
  · simpa using hmirrors.braces

theorem follows_right {isLit : Bool} (hmirrors : Mirrors groups skeleton) :
    Follows skeleton groups (.char isLit '\x7d' :: atoms) := by
  refine ⟨_, ['\x7d'], atoms, List.suffix_cons _ _, rfl,
    (@Lexes.right .brace (spell atoms)).begins, ?_⟩
  intro mid hmid
  obtain ⟨frames, envs, pending⟩ := skeleton
  obtain ⟨rfl, hbraces⟩ := hmirrors
  cases frames with
  | nil => cases hmid
  | cons frame frames =>
    obtain ⟨opened, opener⟩ := frame
    cases opened with
    | bracket => exact absurd List.mem_cons_self hbraces
    | brace =>
      obtain rfl := Option.some.inj hmid
      refine ⟨frames.map Prod.fst, ⟨rfl, ?_⟩, fun _ => ⟨true, rfl⟩⟩
      exact fun hmem => hbraces (List.mem_cons_of_mem _ hmem)

theorem follows_rightBracket {isLit : Bool} (hmirrors : Mirrors groups skeleton) :
    Follows skeleton groups (.char isLit ']' :: atoms) := by
  refine ⟨_, [']'], atoms, List.suffix_cons _ _, rfl,
    (@Lexes.right .bracket (spell atoms)).begins, ?_⟩
  intro mid hmid
  obtain ⟨frames, envs, pending⟩ := skeleton
  obtain ⟨rfl, hbraces⟩ := hmirrors
  cases frames with
  | nil =>
    obtain rfl := Option.some.inj hmid
    exact ⟨[], ⟨rfl, hbraces⟩, fun _ => ⟨false, rfl⟩⟩
  | cons frame frames =>
    obtain ⟨opened, opener⟩ := frame
    cases opened with
    | bracket => exact absurd List.mem_cons_self hbraces
    | brace =>
      obtain rfl := Option.some.inj hmid
      exact ⟨.brace :: frames.map Prod.fst, ⟨rfl, hbraces⟩, fun _ => ⟨false, rfl⟩⟩

theorem follows_char {isLit : Bool} {c : Char} (h : WellSpelled (.char isLit c :: atoms))
    (hbare : c ≠ '[') (hmirrors : Mirrors groups skeleton) :
    Follows skeleton groups (.char isLit c :: atoms) := by
  by_cases hleft : c = '\x7b'
  · subst hleft
    exact follows_left hmirrors
  by_cases hright : c = '\x7d'
  · subst hright
    exact follows_right hmirrors
  by_cases hbracket : c = ']'
  · subst hbracket
    exact follows_rightBracket hmirrors
  have hplain : Plain c := ⟨⟨h.1.1, hleft, hright, h.1.2⟩, hbare, hbracket⟩
  by_cases hblank : isTexBlank c = true
  · obtain ⟨blanks, back, rfl, hblanks, hstops⟩ := exists_blanks h.2
    have hrun : ∀ atom ∈ .char isLit c :: blanks, atom.isTexBlank = true :=
      List.forall_mem_cons.mpr ⟨hblank, hblanks⟩
    have hbegins :=
      (Lexes.blanks (List.cons_ne_nil c (spell blanks)) (spell_blanks hrun) hstops).begins
    refine @follows_passed _ _ (.char isLit c :: blanks) back _ hmirrors hbegins trivial ?_
    intro isReady
    obtain ⟨isReady', -, hnest⟩ := nest_blanks hrun ⟨groups, isReady⟩ back
    exact ⟨isReady', hnest⟩
  · have hbegins := (@Lexes.plain c (spell atoms) hplain (by simpa using hblank)).begins
    exact follows_atom hmirrors hbegins trivial hbare (by simpa using hleft) (by simpa using hright)

theorem follows_word {isLit : Bool} {name : String} (h : WellSpelled (.word isLit name :: atoms))
    (hbare : ∀ atom ∈ atoms, atom.IsBare) (hmirrors : Mirrors groups skeleton) :
    Follows skeleton groups (.word isLit name :: atoms) := by
  rcases word_cases h with hbegins | ⟨env, after, lexeme, hname, hread, hlexeme⟩ |
    ⟨isStarLit, back, rfl, hbegins⟩ | hbegins
  · exact follows_atom hmirrors hbegins trivial trivial (by simp) (by simp)
  · obtain ⟨⟨body, rest⟩, hgroup, heq⟩ := Option.map_eq_some_iff.mp hname
    obtain ⟨-, rfl⟩ := Prod.mk.inj heq
    obtain ⟨back, ⟨front, rfl⟩, rfl, hnest⟩ :=
      nest_readGroup?_bare h.2 hbare hmirrors.braces hgroup true
    have htext : spell (.word isLit name :: (front ++ back)) =
        spell (.word isLit name :: front) ++ spell back := by
      rw [← spell_append, List.cons_append]
    refine @follows_passed _ _ (.word isLit name :: front) back _ hmirrors
      (begins_word h hread htext) ?_ fun _ => ⟨true, hnest⟩
    rcases hlexeme with rfl | rfl <;> trivial
  · have hfront : Begins (.command name) (spell [.word isLit name, .char isStarLit '*'])
        (spell back) := by
      rw [spell_cons, spell_cons, spell_nil, List.append_nil]
      exact hbegins
    refine @follows_passed _ _ [.word isLit name, .char isStarLit '*'] back _ hmirrors hfront trivial
      fun _ => ?_
    obtain ⟨isReady', hstar, -⟩ := readChar_of_plain (c := '*') (by decide) ⟨groups, true⟩
      (mayClose 0 back) isStarLit
    refine ⟨isReady', ?_⟩
    change (readChar ⟨groups, true⟩ (mayClose 0 back) isStarLit '*').bind
      (fun next => next.nest back) = _
    rw [hstar]
    rfl
  · exact follows_atom hmirrors hbegins trivial trivial (by simp) (by simp)

theorem follows (h : WellSpelled (atom :: atoms)) (hbare : ∀ a ∈ atom :: atoms, a.IsBare)
    (hmirrors : Mirrors groups skeleton) : Follows skeleton groups (atom :: atoms) := by
  obtain ⟨hatom, hatoms⟩ := List.forall_mem_cons.mp hbare
  cases atom with
  | word isLit name => exact follows_word h hatoms hmirrors
  | char isLit c => exact follows_char h hatom hmirrors
  | symbol isLit c =>
    have hc : c.isAlpha = false := h.1
    exact follows_atom hmirrors (Lexes.escape hc).begins trivial hatom (by simp) (by simp)
  | comment line =>
    have hline : ∀ c ∈ line, c ≠ '\n' := h.1
    exact follows_atom hmirrors (Lexes.comment hline).begins trivial hatom (by simp) (by simp)
  | note note =>
    have hnote : IsNote note := h.1
    exact follows_atom hmirrors (hnote _) trivial hatom (by simp) (by simp)
  | verbatim isBalanced text =>
    have hverbatim : IsVerbatim text := h.1.1
    exact follows_atom hmirrors (hverbatim _) trivial hatom (by simp) (by simp)

/-! ### Runs -/

/-- Bare atoms nest where the pass comes to the end of them. -/
theorem nest_of_reaches (h : WellSpelled atoms) (hbare : ∀ atom ∈ atoms, atom.IsBare)
    (hmirrors : Mirrors groups skeleton) (hreaches : skeleton.Reaches (spell atoms) last [])
    (hlast : last.frames = []) (isReady : Bool) :
    ∃ isReady', nest ⟨groups, isReady⟩ atoms = some ⟨[], isReady'⟩ := by
  induction hlength : atoms.length using Nat.strongRecOn
    generalizing atoms skeleton groups isReady with
  | ind length ih =>
    cases atoms with
    | nil =>
      obtain ⟨rfl, -⟩ := hreaches.eq_of_nil
      obtain rfl : [] = groups := by rw [← hmirrors.frames, hlast, List.map_nil]
      exact ⟨isReady, rfl⟩
    | cons atom atoms =>
      obtain ⟨lexeme, piece, back, hback, htext, hbegins, hstep⟩ := follows h hbare hmirrors
      rw [htext] at hreaches
      -- The run comes to the end, so the step does not fail.
      obtain ⟨mid, hact, hrest⟩ := hreaches.exists_act hbegins
      obtain ⟨groups', hmid, hnest⟩ := hstep mid hact
      obtain ⟨isReady', heq⟩ := hnest isReady
      have hshorter : back.length < length := hlength ▸ length_lt_of_begins hback htext hbegins
      rw [heq]
      exact ih back.length hshorter (h.of_suffix hback)
        (fun atom hatom => hbare atom (hback.subset hatom)) hmid hrest isReady' rfl

/-- **Where no bracket opens, the pass accepts a text exactly if its atoms nest.** -/
theorem relocate_ok_iff_nest (h : WellSpelled atoms) (hbare : ∀ atom ∈ atoms, atom.IsBare)
    (contexts : Contexts) : (∃ out, (relocate contexts (spell atoms)).result = .ok out) ↔
      ∃ isReady, start.nest atoms = some ⟨[], isReady⟩ := by
  constructor
  · intro haccepts
    obtain ⟨last, hreaches, hframes⟩ := (relocate_ok_iff_skeleton (spell atoms)).mp haccepts
    exact nest_of_reaches h hbare mirrors_start hreaches hframes false
  · rintro ⟨isReady, hnest⟩
    exact relocate_ok_of_nest h hnest contexts

end Nesting

end Marginalia
