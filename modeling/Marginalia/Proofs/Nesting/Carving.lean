import Marginalia.Proofs.Nesting.Cutting
import Marginalia.Proofs.Segment

/-! # The segments of a region

If all parts of a region end between two atoms, they are rows of atoms (`carved_parts`).  Joining
parts of one kind keeps this so, and so does setting the white space at the edges of running text
apart: a text with a line feed in it is cut off between two atoms, since no control symbol reaches
into it (`Firm`), and every other piece of white space is joined again.
-/
namespace Marginalia

open Text Latex Relocation

variable {atoms run back : List Atom} {segment : Segment} {segments : List Segment}
  {text front trail rest : Text}

/-- The segments are rows of atoms, and running text among them is running text. -/
inductive Carved : List Segment → List Atom → Prop
  | nil : Carved [] []
  | cons {segment : Segment} {segments : List Segment} {run atoms : List Atom}
      (htext : spell run = segment.text) (hrun : segment.kind ≠ .markup → Running run)
      (h : Carved segments atoms) : Carved (segment :: segments) (run ++ atoms)

/-- No white space that breaks a line begins with the character of the atom, if it is a highlighted
control symbol. -/
def Atom.IsFirm (rest : Text) : Atom → Prop
  | symbol isLit c => isLit = true → isBlank c = true → '\n' ∉ leadingBlank (c :: rest)
  | _ => True

/-- No white space that breaks a line begins inside a highlighted control symbol. -/
def Firm : List Atom → Prop
  | [] => True
  | atom :: atoms => atom.IsFirm (spell atoms) ∧ Firm atoms

theorem Firm.right {front : List Atom} (h : Firm (front ++ back)) : Firm back := by
  induction front with
  | nil => exact h
  | cons atom front ih => exact ih h.2

theorem Firm.left {front : List Atom} (h : Firm (front ++ back)) : Firm front := by
  induction front with
  | nil => trivial
  | cons atom front ih =>
    rw [List.cons_append] at h
    obtain ⟨hfirm, hfront⟩ := h
    rw [spell_append] at hfirm
    refine ⟨?_, ih hfront⟩
    cases atom with
    | symbol isLit c =>
      intro hlit hblank hmem
      refine hfirm hlit hblank ?_
      exact (takeWhile_prefix_append isBlank (c :: spell front) (spell back)).subset hmem
    | word isLit name => trivial
    | comment line => trivial
    | char isLit c => trivial
    | note note => trivial
    | verbatim isBalanced verbatim => trivial

/-! ### Parts -/

/-- Atoms in front of the same text are the same atoms. -/
theorem eq_of_spell_eq {front front' back back' : List Atom} (h : WellSpelled (front ++ back))
    (hatoms : front ++ back = front' ++ back') (hspell : spell back = spell back') :
    front = front' := by
  have hmiddle {middle last : List Atom} (h : WellSpelled (middle ++ last))
      (hspell : spell (middle ++ last) = spell last) : middle = [] := by
    rw [spell_append] at hspell
    exact eq_nil_of_spell_eq_nil h.left (List.append_left_eq_self.mp hspell)
  rcases List.append_eq_append_iff.mp hatoms with ⟨middle, rfl, rfl⟩ | ⟨middle, rfl, rfl⟩
  · rw [hmiddle h.right hspell, List.append_nil]
  · rw [List.append_assoc] at h
    rw [hmiddle h.right hspell.symm, List.append_nil]

namespace Segmenter

variable {state : Segmenter}

/-- The parts of a text are rows of atoms. -/
theorem carved_parts (h : Steps state atoms) (hspelled : WellSpelled atoms) :
    Carved (parts state (spell atoms)).1 atoms := by
  induction h with
  | nil =>
    rw [spell_nil, parts]
    exact .nil
  | @step state front back c text htext hrest _ ih =>
    have happend : (step state c text).piece ++ spell back = spell front ++ spell back := by
      rw [← spell_append, htext, hrest]
      exact (reads_step state c text).append
    have hcarved := ih hspelled.right
    rw [hrest] at hcarved
    rw [htext, parts]
    refine .cons (List.append_cancel_right happend).symm ?_ hcarved
    intro hkind
    have hplain : (step state c text).isMarkup = false := by
      refine (Bool.not_eq_true _).mp fun hmarkup => hkind ?_
      rw [Step.segment, hmarkup]
      rfl
    obtain ⟨front', back', hatoms, hback', hrunning⟩ := runs_step hspelled htext hplain
    rw [eq_of_spell_eq hspelled hatoms (hrest.trans hback'.symm)]
    exact hrunning

end Segmenter

/-! ### Joining -/

namespace Segment

/-- A part in front of segments is joined to the first of them or stands for itself. -/
theorem carved_cons (hspelled : WellSpelled run) (htext : spell run = segment.text)
    (hrun : segment.kind ≠ .markup → Running run) (h : Carved segments atoms) :
    Carved (cons segment segments) (run ++ atoms) := by
  unfold cons
  split
  · next hempty =>
    rw [List.isEmpty_iff.mp hempty] at htext
    rwa [eq_nil_of_spell_eq_nil hspelled htext]
  · cases h with
    | nil => exact .cons htext hrun .nil
    | @cons next rest run' atoms' htext' hrun' h =>
      dsimp only
      split
      · next hkind =>
        rw [← List.append_assoc]
        refine .cons ?_ ?_ h
        · rw [spell_append, htext, htext']
        · intro hmarkup
          exact (hrun hmarkup).append (hrun' (hkind ▸ hmarkup))
      · exact .cons htext hrun (.cons htext' hrun' h)

theorem carved_merge (hspelled : WellSpelled atoms) (h : Carved segments atoms) :
    Carved (merge segments) atoms := by
  induction h with
  | nil => exact .nil
  | cons htext hrun _ ih => exact carved_cons hspelled.left htext hrun (ih hspelled.right)

end Segment

/-! ### White space -/

/-- The white space at the front of running text is cut off between two atoms. -/
theorem Running.split_leading (h : Running run) :
    ∃ lead body, run = lead ++ body ∧ spell lead = leadingBlank (spell run) ∧
      spell body = trimStart (spell run) ∧ Running body := by
  induction h with
  | nil => exact ⟨[], [], rfl, rfl, rfl, .nil⟩
  | @char isLit c run hc h ih =>
    by_cases hblank : isBlank c = true
    · obtain ⟨lead, body, rfl, hlead, hbody, hrunning⟩ := ih
      refine ⟨.char isLit c :: lead, body, rfl, ?_, ?_, hrunning⟩
      · rw [spell_cons, hlead]
        exact (List.takeWhile_cons_of_pos hblank).symm
      · rw [hbody]
        exact (List.dropWhile_cons_of_pos hblank).symm
    · refine ⟨[], .char isLit c :: run, rfl, ?_, ?_, .char hc h⟩
      · exact (List.takeWhile_cons_of_neg hblank).symm
      · exact (List.dropWhile_cons_of_neg hblank).symm
  | symbol hc h => exact ⟨[], _, rfl, rfl, rfl, .symbol hc h⟩
  | glyph hname h => exact ⟨[], _, rfl, rfl, rfl, .glyph hname h⟩
  | emptyGroup hname h => exact ⟨[], _, rfl, rfl, rfl, .emptyGroup hname h⟩

/-- White space at the end of a text lies behind every other character. -/
theorem split_behind {word : Text} {c : Char} (hc : isBlank c = false)
    (htrail : ∀ d ∈ trail, isBlank d = true) (htext : word ++ c :: rest = front ++ trail) :
    ∃ front', front = word ++ c :: front' ∧ rest = front' ++ trail := by
  have hmem : c ∉ trail := by
    intro hmem
    rw [htrail c hmem] at hc
    cases hc
  rcases List.append_eq_append_iff.mp htext with ⟨middle, rfl, hrest⟩ | ⟨middle, -, rfl⟩
  · cases middle with
    | nil =>
      rw [List.nil_append] at hrest
      exact absurd (hrest ▸ List.mem_cons_self) hmem
    | cons d middle =>
      obtain ⟨rfl, rfl⟩ := List.cons.inj hrest
      exact ⟨middle, rfl, rfl⟩
  · exact absurd (List.mem_append_right middle List.mem_cons_self) hmem

theorem isBlank_of_isAlpha {c : Char} (h : c.isAlpha = true) : isBlank c = false := by
  have hrange := toNat_of_isAlpha h
  unfold isBlank
  dsimp only
  generalize c.toNat = n at hrange
  simp only [Bool.or_eq_false_iff, Bool.and_eq_false_iff, decide_eq_false_iff_not,
    beq_eq_false_iff_ne]
  omega

/-- A word of running text that does not end in white space belongs to what stands before the white
space at the end. -/
theorem split_word {words rest : List Atom} {word : Text} {c : Char}
    (hspell : spell words = word ++ [c]) (hc : isBlank c = false)
    (htrail : ∀ c ∈ trail, isBlank c = true)
    (hwords : ∀ {body : List Atom}, Running body → Running (words ++ body))
    (ih : ∀ {front : Text}, spell rest = front ++ trail → ∃ body blanks,
      rest = body ++ blanks ∧ spell body = front ∧ spell blanks = trail ∧ Running body)
    (htext : spell (words ++ rest) = front ++ trail) :
    ∃ body blanks, words ++ rest = body ++ blanks ∧ spell body = front ∧ spell blanks = trail ∧
      Running body := by
  rw [spell_append, hspell, List.append_assoc, List.singleton_append] at htext
  obtain ⟨front', rfl, hrest⟩ := split_behind hc htrail htext
  obtain ⟨body, blanks, rfl, hbody, hblanks, hrunning⟩ := ih hrest
  refine ⟨words ++ body, blanks, (List.append_assoc ..).symm, ?_, hblanks, hwords hrunning⟩
  rw [spell_append, hspell, hbody, List.append_assoc, List.singleton_append]

/-- The white space at the end of running text is cut off between two atoms if there is a line feed
in it: no control symbol reaches into it. -/
theorem Running.split_blanks (h : Running run) (hlit : ∀ atom ∈ run, atom.IsLit)
    (hspelled : WellSpelled run) (hfirm : Firm run) (htext : spell run = front ++ trail)
    (htrail : ∀ c ∈ trail, isBlank c = true) (hline : '\n' ∈ trail) :
    ∃ body blanks, run = body ++ blanks ∧ spell body = front ∧ spell blanks = trail ∧
      Running body := by
  induction h generalizing front with
  | nil =>
    rw [spell_nil] at htext
    rw [(List.append_eq_nil_iff.mp htext.symm).2] at hline
    cases hline
  | @char isLit c run hc h ih =>
    cases front with
    | nil => exact ⟨[], _, rfl, rfl, htext, .nil⟩
    | cons d front =>
      obtain ⟨rfl, hrest⟩ := List.cons.inj htext
      obtain ⟨body, blanks, rfl, hbody, hblanks, hrunning⟩ :=
        ih (fun atom hatom => hlit atom (List.mem_cons_of_mem _ hatom)) hspelled.2 hfirm.2 hrest
      refine ⟨.char isLit c :: body, blanks, rfl, ?_, hblanks, .char hc hrunning⟩
      rw [spell_cons, hbody]
      rfl
  | @symbol isLit c run hc h ih =>
    cases front with
    | nil => exact ⟨[], _, rfl, rfl, htext, .nil⟩
    | cons d front =>
      obtain ⟨rfl, hrest⟩ := List.cons.inj htext
      cases front with
      | nil =>
        -- The character of the control symbol would be in the white space.
        have hrest : c :: spell run = trail := hrest
        have hblank : isBlank c = true := htrail c (hrest ▸ List.mem_cons_self)
        refine absurd ?_ (hfirm.1 (hlit _ List.mem_cons_self hc) hblank)
        rw [hrest, leadingBlank, ← List.append_nil trail, List.takeWhile_append_of_pos htrail]
        exact List.mem_append_left _ hline
      | cons d front =>
        obtain ⟨rfl, hafter⟩ : c = d ∧ spell run = front ++ trail := List.cons.inj hrest
        obtain ⟨body, blanks, rfl, hbody, hblanks, hrunning⟩ :=
          ih (fun atom hatom => hlit atom (List.mem_cons_of_mem _ hatom)) hspelled.2 hfirm.2 hafter
        refine ⟨.symbol isLit c :: body, blanks, rfl, ?_, hblanks, .symbol hc hrunning⟩
        rw [spell_cons, hbody]
        rfl
  | @glyph isLit name run hname h ih =>
    have hne : name.toList ≠ [] := fun heq => hspelled.1.1 (String.toList_eq_nil_iff.mp heq)
    obtain ⟨word, c, hletters⟩ := List.eq_nil_or_concat name.toList |>.resolve_left hne
    have hc : c.isAlpha = true := hspelled.1.2.1 c (by rw [hletters]; simp)
    have hspell : spell [.word isLit name] = '\\' :: word ++ [c] := by
      simp [Atom.toText, hletters]
    refine split_word hspell (isBlank_of_isAlpha hc) htrail (fun hbody => .glyph hname hbody)
      (fun hrest => ?_) htext
    exact ih (fun atom hatom => hlit atom (List.mem_cons_of_mem _ hatom)) hspelled.2 hfirm.2 hrest
  | @emptyGroup isLit left right name run hname h ih =>
    have hspell : spell [.word isLit name, .char left '\x7b', .char right '\x7d'] =
        '\\' :: (name.toList ++ ['\x7b']) ++ ['\x7d'] := by
      simp [Atom.toText]
    refine split_word hspell (by decide) htrail (fun hbody => .emptyGroup hname hbody)
      (fun hrest => ?_) htext
    refine ih (fun atom hatom => hlit atom ?_) hspelled.2.2.2 hfirm.2.2.2 hrest
    exact List.mem_cons_of_mem _ (List.mem_cons_of_mem _ (List.mem_cons_of_mem _ hatom))

/-! ### Segments -/

namespace Segment

/-- Running text with the white space at its end set apart. -/
theorem carved_trail {kind : Kind} (hrun : Running run)
    (hlit : ∀ atom ∈ run, atom.IsLit) (hspelled : WellSpelled run) (hfirm : Firm run)
    (htext : spell run = front ++ trail) (htrail : ∀ c ∈ trail, isBlank c = true)
    (h : Carved segments atoms) :
    Carved (cons ⟨kind, front⟩ (cons ⟨edgeKind trail kind, trail⟩ segments)) (run ++ atoms) := by
  by_cases hline : trail.contains '\n' = true
  · obtain ⟨body, blanks, rfl, hbody, hblanks, hrunning⟩ :=
      hrun.split_blanks hlit hspelled hfirm htext htrail (List.contains_iff_mem.mp hline)
    rw [edgeKind, if_pos hline, List.append_assoc]
    refine carved_cons hspelled.left hbody (fun _ => hrunning) ?_
    exact carved_cons hspelled.right hblanks (fun hmarkup => absurd rfl hmarkup) h
  · rw [edgeKind, if_neg hline, cons_cons]
    exact carved_cons hspelled htext (fun _ => hrun) h

/-- A segment with the white space at its edges set apart. -/
theorem carved_trimEdges (htext : spell run = segment.text)
    (hrun : segment.kind ≠ .markup → Running run) (hlit : ∀ atom ∈ run, atom.IsLit)
    (hspelled : WellSpelled run) (hfirm : Firm run) (h : Carved segments atoms) :
    Carved (segment.trimEdges.foldr cons segments) (run ++ atoms) := by
  unfold trimEdges
  by_cases hmarkup : segment.kind = .markup
  · rw [if_pos hmarkup]
    exact carved_cons hspelled htext hrun h
  rw [if_neg hmarkup]
  have hrunning := hrun hmarkup
  dsimp only
  by_cases hempty : (trim segment.text).isEmpty = true
  · rw [if_pos hempty]
    exact carved_cons hspelled htext (fun _ => hrunning) h
  rw [if_neg hempty]
  have htrail : ∀ c ∈ trailingBlank (trimStart segment.text), isBlank c = true := by
    intro c hc
    exact List.all_eq_true.mp List.all_takeWhile c (List.mem_reverse.mp hc)
  have hedges := leadingBlank_append_trimStart segment.text
  have hbody := trimEnd_append_trailingBlank (trimStart segment.text)
  simp only [List.foldr_cons, List.foldr_nil]
  by_cases hline : (leadingBlank segment.text).contains '\n' = true
  · obtain ⟨lead, body, rfl, hlead, hspell, hrunning'⟩ := hrunning.split_leading
    rw [htext] at hlead hspell
    rw [List.append_assoc]
    refine carved_cons hspelled.left hlead (fun hkind => absurd ?_ hkind) ?_
    · exact if_pos hline
    · refine carved_trail hrunning' ?_ hspelled.right hfirm.right ?_ htrail h
      · exact fun atom hatom => hlit atom (List.mem_append_right lead hatom)
      · exact hspell.trans hbody.symm
  · -- The white space at the front stays with the text behind it.
    have hkind : edgeKind (leadingBlank segment.text) segment.kind = segment.kind := if_neg hline
    rw [hkind, cons_cons]
    refine carved_trail hrunning hlit hspelled hfirm ?_ htrail h
    rw [htext, List.append_assoc, trim, hbody, hedges]

/-- The segments made of parts are rows of atoms. -/
theorem carved_ofParts (hlit : ∀ atom ∈ atoms, atom.IsLit) (hspelled : WellSpelled atoms)
    (hfirm : Firm atoms) (h : Carved segments atoms) : Carved (ofParts segments) atoms := by
  have key {segments : List Segment} {atoms : List Atom} (h : Carved segments atoms)
      (hlit : ∀ atom ∈ atoms, atom.IsLit) (hspelled : WellSpelled atoms) (hfirm : Firm atoms) :
      Carved (merge (segments.flatMap trimEdges)) atoms := by
    induction h with
    | nil => exact .nil
    | @cons segment segments run atoms htext hrun _ ih =>
      rw [List.flatMap_cons, merge, List.foldr_append]
      refine carved_trimEdges htext hrun ?_ hspelled.left hfirm.left
        (ih ?_ hspelled.right hfirm.right)
      · exact fun atom hatom => hlit atom (List.mem_append_left atoms hatom)
      · exact fun atom hatom => hlit atom (List.mem_append_right run hatom)
  exact key (carved_merge hspelled h) hlit hspelled hfirm

end Segment

/-- What is open from the region before is no running text. -/
theorem Segmenter.isMarkup_resume (state : Segmenter) (text : Text) :
    (state.resume text).isMarkup = true := by
  unfold resume
  dsimp only
  split
  · rfl
  · exact isMarkup_passOrCarry ..
  · exact isMarkup_passOrCarry ..
  · split <;> rfl

/-- **The segments of a region are rows of atoms** if all its parts end between two atoms. -/
theorem Segmenter.Passes.carved_split {state : Segmenter} (h : state.Passes atoms)
    (hlit : ∀ atom ∈ atoms, atom.IsLit) (hspelled : WellSpelled atoms) (hfirm : Firm atoms) :
    Carved (state.split (spell atoms)).1 atoms := by
  obtain ⟨front, back, rfl, hback, hsteps⟩ := h
  have happend : (state.resume (spell (front ++ back))).piece ++ spell back =
      spell front ++ spell back := by
    rw [← spell_append, hback]
    exact resume_append state _
  have hcarved := carved_parts hsteps hspelled.right
  rw [hback] at hcarved
  refine Segment.carved_ofParts hlit hspelled hfirm ?_
  refine .cons (List.append_cancel_right happend).symm (fun hkind => absurd ?_ hkind) hcarved
  rw [Step.segment, isMarkup_resume]
  rfl

end Marginalia
