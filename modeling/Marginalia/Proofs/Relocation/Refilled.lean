import Marginalia.Proofs.Nesting.Atom
import Marginalia.Proofs.Relocation.Order

/-! # Texts that differ in what their notes say

`Refilled text text'` relates two texts that are read alike, lexeme by lexeme, but for their notes.
A text whose notes are replaced by others is such a text (`refilled_refill`), unless it has verbatim
text, which scanners go into.

Not only the pass reads such texts alike.  So do the scanners that look ahead: a group closes in both
or in none (`Refilled.closeGroup`), an argument follows in both or in none
(`Refilled.argumentFollows_eq`), and a bracketed argument closes in both or in none
(`Refilled.bracketCloses_eq`).
-/
namespace Marginalia.Relocation

open Text Latex

variable {lexeme : Lexeme} {piece rest rest' text text' : Text}

/-! ### Notes replaced -/

namespace Noted

/-- The text with other notes in the places of its own. -/
def refill (notes : List Text) (noted : Noted) : Noted :=
  ⟨List.zipWith (fun part note => (part.1, note)) noted.parts notes, noted.tail⟩

variable (noted : Noted)

theorem refill_push (notes : List Text) (piece : Text)
    (hlength : notes.length = noted.notes.length) :
    (noted.push piece).refill notes = (noted.refill notes).push piece := by
  obtain ⟨parts, tail⟩ := noted
  cases parts with
  | nil => rfl
  | cons part parts =>
    cases notes with
    | nil => cases hlength
    | cons note notes => rfl

theorem refill_put (note note' : Text) (notes : List Text) :
    (noted.put note).refill (note' :: notes) = (noted.refill notes).put note' := rfl

theorem refill_putAll (notes : List Text) {waiting waiting' : List Text}
    (hlength : waiting'.length = waiting.length) :
    (noted.putAll waiting).refill (waiting' ++ notes) = (noted.refill notes).putAll waiting' := by
  induction waiting generalizing waiting' with
  | nil =>
    obtain rfl := List.length_eq_zero_iff.mp hlength
    rfl
  | cons note waiting ih =>
    cases waiting' with
    | nil => cases hlength
    | cons note' waiting' => exact congrArg (put note') (ih (Nat.succ.inj hlength))

@[simp] theorem notes_refill {notes : List Text} (hlength : notes.length = noted.notes.length) :
    (noted.refill notes).notes = notes := by
  obtain ⟨parts, tail⟩ := noted
  induction parts generalizing notes with
  | nil =>
    obtain rfl := List.length_eq_zero_iff.mp hlength
    rfl
  | cons part parts ih =>
    cases notes with
    | nil => cases hlength
    | cons note notes => exact congrArg (note :: ·) (ih (Nat.succ.inj hlength))

/-- Only the last notes put into a text count. -/
theorem refill_refill {notes : List Text} (notes' : List Text)
    (hlength : notes.length = noted.notes.length) :
    (noted.refill notes).refill notes' = noted.refill notes' := by
  obtain ⟨parts, tail⟩ := noted
  have hparts : (((⟨parts, tail⟩ : Noted).refill notes).refill notes').parts =
      ((⟨parts, tail⟩ : Noted).refill notes').parts := by
    induction parts generalizing notes notes' with
    | nil => rfl
    | cons part parts ih =>
      cases notes with
      | nil => cases hlength
      | cons note notes =>
        cases notes' with
        | nil => rfl
        | cons note' notes' => exact congrArg (_ :: ·) (ih notes' (Nat.succ.inj hlength))
  exact congrArg (Noted.mk · tail) hparts

end Noted

/-- A command of the name of a note, with two arguments that scans over groups close, is a note. -/
theorem isNote_noteText {key body : Text} (hkey : closeGroup 1 (key ++ ['}']) = .closed [])
    (hbody : closeGroup 1 (body ++ ['}']) = .closed []) : IsNote (noteText key body) := by
  have hclosed {argument : Text} (h : closeGroup 1 (argument ++ ['}']) = .closed []) (rest : Text) :
      readGroup? ('{' :: (argument ++ '}' :: rest)) = some (argument, rest) := by
    obtain ⟨front, hfront, hreplace⟩ := closeGroup_replace h
    have hclose : closeGroup 1 (argument ++ '}' :: rest) = .closed rest := by
      rw [List.append_cons, hfront, List.append_nil]
      exact hreplace rest
    rw [readGroup?, hclose]
    dsimp only
    rw [List.append_cons, upTo_append_right, List.dropLast_concat]
  have hskip (text : Text) : skipBlanks ('{' :: text) = '{' :: text := rfl
  intro rest
  refine (Lexes.note fun rest => ?_).begins
  simp only [List.cons_append, List.append_assoc, List.nil_append]
  rw [noteEnd?, hskip, hclosed hkey]
  dsimp only
  rw [hskip, hclosed hbody]
  rfl

/-! ### The lexemes of a text -/

/-- What the pass reads in a text, lexeme by lexeme. -/
def lexemes (text : Text) : List Lexeme :=
  match text with
  | [] => []
  | c :: text => (read c text).1 :: lexemes (read c text).2
termination_by text.length
decreasing_by exact Nat.lt_succ_of_le (read_suffix c text).length_le

/-- What the rules of reading do not cover begins with a backslash: a verbatim environment, or a control
word. -/
theorem Begins.exists_word (h : Begins lexeme piece rest) (hregular : ¬ lexeme.Regular) :
    (lexeme = .verbatim ∧ ∃ env : Verbatim, env.opening <+: piece ++ rest) ∨
      ∃ name left, piece ++ rest = '\\' :: (name.toList ++ left) ∧ Stops Char.isAlpha left ∧
        readWord name left = (lexeme, rest) := by
  obtain ⟨c, text, htext, hread⟩ := h
  have hc : c = '\\' := by
    by_contra hc
    apply hregular
    unfold read at hread
    split at hread
    case h_2 => exact absurd rfl hc
    case h_7 =>
      split at hread <;>
        (obtain ⟨rfl, -⟩ := Prod.mk.inj hread; exact ⟨by simp, by simp, by simp⟩)
    all_goals
      obtain ⟨rfl, -⟩ := Prod.mk.inj hread
      exact ⟨by decide, by decide, by decide⟩
  subst hc
  rw [read_escape, readEscape] at hread
  rw [htext]
  cases hverbatim : Verbatim.begins? ('\\' :: text) with
  | some begun =>
    obtain ⟨env, body⟩ := begun
    rw [hverbatim] at hread
    exact .inl ⟨(Prod.mk.inj hread).1.symm, env, body, (Verbatim.eq_append_of_begins? hverbatim).symm⟩
  | none =>
    rw [hverbatim] at hread
    dsimp only at hread
    rcases readControl_cases text with ⟨name, left, hcontrol, rfl, -, -, hstops⟩ |
      ⟨d, left, hcontrol, rfl, -⟩ | ⟨hcontrol, rfl⟩
    · rw [hcontrol] at hread
      exact .inr ⟨name, left, rfl, hstops, hread⟩
    · rw [hcontrol] at hread
      obtain ⟨rfl, -⟩ := Prod.mk.inj hread
      exact absurd ⟨by decide, by decide, by decide⟩ hregular
    · rw [hcontrol] at hread
      obtain ⟨rfl, -⟩ := Prod.mk.inj hread
      exact absurd ⟨by decide, by decide, by decide⟩ hregular

/-- What a control word of the pass is that the rules of reading do not cover: inline verbatim text, a
note that lacks an argument, or an environment without a name. -/
theorem readWord_irregular {name : String} {left : Text} (h : readWord name left = (lexeme, rest))
    (hregular : ¬ lexeme.Regular) :
    (lexeme = .verbatim ∧ name = "verb") ∨
      (lexeme = .brokenNote ∧ name = "annot" ∧ noteEnd? left = none ∧ left = rest) ∨
      lexeme = .nameless ∧ (name = "begin" ∨ name = "end") ∧ environmentName? left = none ∧
        left = rest := by
  unfold readWord at h
  split at h
  · next hverb => exact .inl ⟨(Prod.mk.inj h).1.symm, hverb⟩
  split at h
  · next hannot =>
    cases hend : noteEnd? left with
    | none =>
      rw [hend] at h
      obtain ⟨rfl, rfl⟩ := Prod.mk.inj h
      exact .inr (.inl ⟨rfl, hannot, rfl, rfl⟩)
    | some after =>
      rw [hend] at h
      obtain ⟨rfl, -⟩ := Prod.mk.inj h
      exact absurd ⟨by decide, by decide, by decide⟩ hregular
  split at h
  · next henv =>
    cases hname : environmentName? left with
    | none =>
      rw [hname] at h
      obtain ⟨rfl, rfl⟩ := Prod.mk.inj h
      exact .inr (.inr ⟨rfl, henv, rfl, rfl⟩)
    | some begun =>
      obtain ⟨env, after⟩ := begun
      rw [hname] at h
      dsimp only at h
      split at h <;>
        (obtain ⟨rfl, -⟩ := Prod.mk.inj h; exact absurd ⟨by simp, by simp, by simp⟩ hregular)
  · obtain ⟨rfl, -⟩ := Prod.mk.inj h
    exact absurd ⟨by simp, by simp, by simp⟩ hregular

/-- Without inline verbatim text and verbatim environments, no lexeme is verbatim text. -/
theorem not_mem_lexemes (hverb : ¬ "\\verb".toList <:+: text)
    (henv : ∀ env : Verbatim, ¬ env.opening <:+: text) : .verbatim ∉ lexemes text := by
  fun_induction lexemes text with
  | case1 => exact List.not_mem_nil
  | case2 c text ih =>
    have hbegins := begins_read c text
    have hwhole := upTo_append ((read_suffix c text).trans (List.suffix_cons c text))
    have hsuffix : (read c text).2 <:+: c :: text :=
      ((read_suffix c text).trans (List.suffix_cons c text)).isInfix
    refine List.not_mem_cons_of_ne_of_not_mem ?_
      (ih (fun h => hverb (h.trans hsuffix)) fun env h => henv env (h.trans hsuffix))
    intro hverbatim
    rw [← hverbatim] at hbegins
    rcases hbegins.exists_word (fun h => h.1 rfl) with ⟨-, env, hopening⟩ | ⟨name, left, htext, -, hword⟩
    · rw [hwhole] at hopening
      exact henv env hopening.isInfix
    · rcases readWord_irregular hword (fun h => h.1 rfl) with ⟨-, rfl⟩ | ⟨h, -⟩ | ⟨h, -⟩
      · rw [hwhole] at htext
        exact hverb ⟨[], left, htext.symm⟩
      · cases h
      · cases h

/-! ### Notes and environments that are not whole -/

/-- A note that lacks an argument is its name. -/
theorem Begins.brokenNote (h : Begins .brokenNote piece rest) :
    piece = '\\' :: "annot".toList ∧ Stops Char.isAlpha rest ∧ noteEnd? rest = none := by
  rcases h.exists_word (fun h => h.2.1 rfl) with ⟨hverbatim, -⟩ | ⟨name, left, htext, hstops, hword⟩
  · cases hverbatim
  · rcases readWord_irregular hword (fun h => h.2.1 rfl) with ⟨hverbatim, -⟩ |
      ⟨-, rfl, hend, rfl⟩ | ⟨hnameless, -⟩
    · cases hverbatim
    · exact ⟨List.append_cancel_right htext, hstops, hend⟩
    · cases hnameless

theorem begins_brokenNote (hrest : Stops Char.isAlpha rest) (hend : noteEnd? rest = none) :
    Begins .brokenNote ('\\' :: "annot".toList) rest := by
  refine begins_escape ?_
  rw [readEscape_annot hrest, hend]

/-- A beginning or an end without a name is its own name. -/
theorem Begins.nameless (h : Begins .nameless piece rest) :
    ∃ name : String, (name = "begin" ∨ name = "end") ∧ piece = '\\' :: name.toList ∧
      Stops Char.isAlpha rest ∧ environmentName? rest = none := by
  rcases h.exists_word (fun h => h.2.2 rfl) with ⟨hverbatim, -⟩ | ⟨name, left, htext, hstops, hword⟩
  · cases hverbatim
  · rcases readWord_irregular hword (fun h => h.2.2 rfl) with ⟨hverbatim, -⟩ | ⟨hbroken, -⟩ |
      ⟨-, hname, henv, rfl⟩
    · cases hverbatim
    · cases hbroken
    · exact ⟨name, hname, List.append_cancel_right htext, hstops, henv⟩

theorem begins_nameless {name : String} (hname : name = "begin" ∨ name = "end")
    (hrest : Stops Char.isAlpha rest) (henv : environmentName? rest = none) :
    Begins .nameless ('\\' :: name.toList) rest := by
  have hverbatim : Verbatim.begins? ('\\' :: (name.toList ++ rest)) = none := by
    rcases hname with rfl | rfl
    · -- A verbatim environment would have a name.
      refine Verbatim.begins?_begin_eq_none_iff.mpr fun v after hafter => ?_
      have hskip : skipBlanks ('{' :: (v.name ++ '}' :: after)) = '{' :: (v.name ++ '}' :: after) := rfl
      rw [hafter, environmentName?, hskip, readGroup?_append (by cases v <;> decide)] at henv
      cases henv
    · exact Verbatim.begins?_word (by decide) (by decide) hrest
  have hletters : name ≠ "" ∧ ∀ c ∈ name.toList, c.isAlpha = true := by
    rcases hname with rfl | rfl <;> exact ⟨by decide, by decide⟩
  refine begins_escape ?_
  rw [readEscape_word hletters.1 hletters.2 hrest hverbatim, readWord_environment hname, henv]

/-- Notes that lack an argument and environments without a name are control words. -/
theorem Begins.exists_name (h : Begins lexeme piece rest)
    (hlexeme : lexeme = .brokenNote ∨ lexeme = .nameless) :
    ∃ name : String, piece = '\\' :: name.toList ∧ name ≠ "" ∧
      (∀ c ∈ name.toList, c.isAlpha = true) ∧ Stops Char.isAlpha rest := by
  rcases hlexeme with rfl | rfl
  · obtain ⟨rfl, hstops, -⟩ := h.brokenNote
    exact ⟨"annot", rfl, by decide, by decide, hstops⟩
  · obtain ⟨name, hname, rfl, hstops, -⟩ := h.nameless
    refine ⟨name, rfl, ?_, ?_, hstops⟩ <;> rcases hname with rfl | rfl <;> decide

/-- What is no verbatim text is spelled by the rules, or lacks an argument or a name. -/
theorem Lexeme.cases (hverbatim : lexeme ≠ .verbatim) :
    lexeme.Regular ∨ lexeme = .brokenNote ∨ lexeme = .nameless := by
  by_cases hbroken : lexeme = .brokenNote
  · exact .inr (.inl hbroken)
  · by_cases hnameless : lexeme = .nameless
    · exact .inr (.inr hnameless)
    · exact .inl ⟨hverbatim, hbroken, hnameless⟩

theorem Begins.closes_iff (h : Begins lexeme piece rest) (hverbatim : lexeme ≠ .verbatim)
    (depth : Nat) : Closes depth (piece ++ rest) ↔ lexeme.ClosesBehind depth rest := by
  rcases Lexeme.cases hverbatim with hregular | hirregular
  · exact (h.lexes hregular).closes_iff depth
  · obtain ⟨name, rfl, hne, hletters, hstops⟩ := h.exists_name hirregular
    rw [List.cons_append, closes_word hne hletters hstops]
    rcases hirregular with rfl | rfl <;> rfl

/-- A scan over groups passes over the name of an environment. -/
theorem closeGroup_environmentName? {depth : Nat} (hdepth : 1 ≤ depth) {text : Text} {env : String}
    (h : environmentName? text = some (env, rest)) : closeGroup depth text = closeGroup depth rest := by
  obtain ⟨⟨name, left⟩, hname, heq⟩ := Option.map_eq_some_iff.mp h
  obtain ⟨-, rfl⟩ := Prod.mk.inj heq
  exact closeGroup_readGroup? hdepth hname

/-- A scan over groups passes over every lexeme that is no brace. -/
theorem Begins.closeGroup_eq (h : Begins lexeme piece rest) (hverbatim : lexeme ≠ .verbatim)
    {depth : Nat} (hdepth : 1 ≤ depth) (hleft : lexeme ≠ .left .brace)
    (hright : lexeme ≠ .right .brace) : closeGroup depth (piece ++ rest) = closeGroup depth rest := by
  rcases Lexeme.cases hverbatim with hregular | hirregular
  · cases h.lexes hregular with
    | comment hline =>
      rw [List.cons_append, List.append_assoc, List.singleton_append, closeGroup,
        (dropComment_line hline).2]
    | @openComment line hline =>
      have hscan : closeGroup depth ('%' :: line) = closeGroup depth (dropComment line) := by
        rw [closeGroup]
      rw [List.append_nil, hscan, (dropComment_line hline).1]
    | escape hc =>
      rw [List.cons_append, List.singleton_append, closeGroup, readControl, if_neg (by simp [hc])]
    | bare =>
      have hscan : closeGroup depth ['\\'] = closeGroup depth (readControl []).2 := by
        rw [closeGroup]
      exact hscan
    | command hname hrest =>
      rw [List.cons_append, closeGroup_word hname.nonempty hname.letters (stops_isAlpha hrest)]
    | starred hname =>
      rw [List.cons_append, List.append_assoc, List.singleton_append,
        closeGroup_word hname.nonempty hname.letters (stops_cons.mpr (by decide)),
        closeGroup_cons (by decide)]
    | note hargs => exact closeGroup_note hdepth h.isNote
    | opening hargs hnone =>
      obtain ⟨-, -, hstops, -⟩ := environmentName?_replace (hargs rest)
      rw [List.cons_append, List.append_assoc, closeGroup_word (by decide) (by decide) hstops,
        closeGroup_environmentName? hdepth (hargs rest)]
    | ending hargs =>
      obtain ⟨-, -, hstops, -⟩ := environmentName?_replace (hargs rest)
      rw [List.cons_append, List.append_assoc, closeGroup_word (by decide) (by decide) hstops,
        closeGroup_environmentName? hdepth (hargs rest)]
    | @left delimiter =>
      cases delimiter with
      | brace => exact absurd rfl hleft
      | bracket => exact closeGroup_cons (by decide) rest
    | @right delimiter =>
      cases delimiter with
      | brace => exact absurd rfl hright
      | bracket => exact closeGroup_cons (by decide) rest
    | blanks hne hrun hrest =>
      exact closeGroup_append (fun c hc => (plain_of_isTexBlank (hrun c hc)).toInert) rest
    | plain hc hblank => exact closeGroup_cons hc.toInert rest
  · obtain ⟨name, rfl, hne, hletters, hstops⟩ := h.exists_name hirregular
    rw [List.cons_append, closeGroup_word hne hletters hstops]

/-! ### Texts that are read alike -/

/-- The texts are read alike, lexeme by lexeme, but for what their notes say. -/
inductive Refilled : Text → Text → Prop
  | nil : Refilled [] []
  | note {note note' rest rest' : Text} (hnote : IsNote note) (hnote' : IsNote note')
      (hrest : Refilled rest rest') : Refilled (note ++ rest) (note' ++ rest')
  | piece {lexeme : Lexeme} {piece rest rest' : Text} (hbegins : Begins lexeme piece rest)
      (hbegins' : Begins lexeme piece rest') (hnote : lexeme ≠ .note)
      (hverbatim : lexeme ≠ .verbatim) (hrest : Refilled rest rest') :
      Refilled (piece ++ rest) (piece ++ rest')

namespace Refilled

theorem symm (h : Refilled text text') : Refilled text' text := by
  induction h with
  | nil => exact .nil
  | note hnote hnote' _ ih => exact .note hnote' hnote ih
  | piece hbegins hbegins' hnote hverbatim _ ih => exact .piece hbegins' hbegins hnote hverbatim ih

theorem eq_nil (h : Refilled [] text') : text' = [] := by
  generalize hnil : ([] : Text) = text at h
  cases h with
  | nil => rfl
  | note hnote =>
    obtain ⟨tail, rfl⟩ := hnote.eq_cons
    cases hnil
  | piece hbegins => exact absurd hnil.symm hbegins.ne_nil

/-- What is read of a text is read of the other, but for a note, which may be another one. -/
theorem reads (h : Refilled (piece ++ rest) text') (hbegins : Begins lexeme piece rest) :
    ∃ piece' rest', text' = piece' ++ rest' ∧ Begins lexeme piece' rest' ∧ Refilled rest rest' ∧
      lexeme ≠ .verbatim ∧ piece'.head? = piece.head? ∧ (lexeme ≠ .note → piece' = piece) := by
  generalize htext : piece ++ rest = text at h
  cases h with
  | nil => exact absurd htext hbegins.ne_nil
  | @note note note' left left' hnote hnote' hrest =>
    obtain ⟨rfl, rfl, rfl⟩ := hbegins.unique (hnote left) htext
    obtain ⟨tail, rfl⟩ := hnote.eq_cons
    obtain ⟨tail', rfl⟩ := hnote'.eq_cons
    exact ⟨_, left', rfl, hnote' left', hrest, by decide, rfl, absurd rfl⟩
  | @piece lexeme' piece' left left' hbegins' hbegins'' hnote hverbatim hrest =>
    obtain ⟨rfl, rfl, rfl⟩ := hbegins.unique hbegins' htext
    exact ⟨_, left', rfl, hbegins'', hrest, hverbatim, rfl, fun _ => rfl⟩

theorem head?_eq (h : Refilled text text') : text.head? = text'.head? := by
  cases h with
  | nil => rfl
  | note hnote hnote' =>
    obtain ⟨tail, rfl⟩ := hnote.eq_cons
    obtain ⟨tail', rfl⟩ := hnote'.eq_cons
    rfl
  | piece hbegins hbegins' =>
    obtain ⟨c, tail, rfl, -⟩ := hbegins.eq_cons
    rfl

theorem stops {p : Char → Bool} (h : Refilled text text') (hstops : Stops p text) : Stops p text' := by
  intro c hc
  exact hstops c (h.head?_eq ▸ hc)

/-- The texts have as many notes. -/
theorem length_notes (h : Refilled text text') :
    (Noted.ofText text).notes.length = (Noted.ofText text').notes.length := by
  induction h with
  | nil => rfl
  | note hnote hnote' _ ih =>
    rw [(hnote _).ofText_note, (hnote' _).ofText_note, Noted.notes_put, Noted.notes_put,
      List.length_cons, List.length_cons, ih]
  | piece hbegins hbegins' hnote _ _ ih =>
    rw [hbegins.ofText_push hnote, hbegins'.ofText_push hnote, Noted.notes_push, Noted.notes_push, ih]

/-! ### Scans ahead -/

/-- A group that closes in a text closes in the other. -/
theorem closeGroup (h : Refilled text text') {depth : Nat} (hdepth : 1 ≤ depth)
    (hclosed : Latex.closeGroup depth text = .closed rest) :
    ∃ rest', Latex.closeGroup depth text' = .closed rest' ∧ Refilled rest rest' := by
  induction h generalizing depth with
  | nil =>
    rw [Latex.closeGroup] at hclosed
    cases hclosed
  | note hnote hnote' _ ih =>
    rw [closeGroup_note hdepth hnote] at hclosed
    rw [closeGroup_note hdepth hnote']
    exact ih hdepth hclosed
  | @piece lexeme piece left left' hbegins hbegins' hnote hverbatim hrest ih =>
    by_cases hleft : lexeme = .left .brace
    · subst hleft
      cases hbegins.lexes ⟨by decide, by decide, by decide⟩
      rw [List.singleton_append, Delimiter.left, Latex.closeGroup] at hclosed ⊢
      exact ih (Nat.le_add_left 1 depth) hclosed
    by_cases hright : lexeme = .right .brace
    · subst hright
      cases hbegins.lexes ⟨by decide, by decide, by decide⟩
      rw [List.singleton_append, Delimiter.right, Latex.closeGroup] at hclosed ⊢
      by_cases hlast : depth ≤ 1
      · rw [if_pos hlast] at hclosed ⊢
        obtain rfl := Closing.closed.inj hclosed
        exact ⟨left', rfl, hrest⟩
      · rw [if_neg hlast] at hclosed ⊢
        exact ih (by omega) hclosed
    · rw [hbegins.closeGroup_eq hverbatim hdepth hleft hright] at hclosed
      rw [hbegins'.closeGroup_eq hverbatim hdepth hleft hright]
      exact ih hdepth hclosed

/-- Where white space and the beginning of an argument follow in a text, they do in the other. -/
theorem skipBlanks {delimiter : Delimiter} (h : Refilled text text')
    (hskip : Latex.skipBlanks text = delimiter.left :: rest) :
    ∃ rest', Latex.skipBlanks text' = delimiter.left :: rest' ∧ Refilled rest rest' := by
  obtain ⟨blanks, rfl, hblanks, hreplace⟩ := skipBlanks_replace hskip
  have hargument {text : Text} (h : Refilled (delimiter.left :: rest) text) :
      ∃ rest', text = delimiter.left :: rest' ∧ Refilled rest rest' := by
    rw [← List.singleton_append] at h
    obtain ⟨piece', rest', rfl, -, hrest, -, -, hpiece⟩ := h.reads Lexes.left.begins
    rw [hpiece (by simp)]
    exact ⟨rest', rfl, hrest⟩
  cases blanks with
  | nil =>
    obtain ⟨rest', rfl, hrest⟩ := hargument h
    exact ⟨rest', hreplace rest', hrest⟩
  | cons c blanks =>
    have hstops : Stops isTexBlank (delimiter.left :: rest) := by
      rw [stops_cons]
      cases delimiter <;> decide
    obtain ⟨piece', left, rfl, -, hleft, -, -, hpiece⟩ :=
      h.reads (Lexes.blanks (List.cons_ne_nil _ _) hblanks hstops).begins
    obtain ⟨rest', rfl, hrest⟩ := hargument hleft
    rw [hpiece (by simp)]
    exact ⟨rest', hreplace rest', hrest⟩

/-- An argument that can be read of a text can be read of the other. -/
theorem readGroup? {body : Text} (h : Refilled text text')
    (hread : Latex.readGroup? (Latex.skipBlanks text) = some (body, rest)) :
    ∃ body' rest', Latex.readGroup? (Latex.skipBlanks text') = some (body', rest') ∧
      Refilled rest rest' := by
  obtain ⟨inner, hskip, hinner⟩ := readGroup?_replace hread
  obtain ⟨left, hskip', hleft⟩ := @Refilled.skipBlanks _ _ _ .brace h hskip
  obtain ⟨rest', hclosed, hrest⟩ := hleft.closeGroup (Nat.le_refl 1) (hinner rest).2
  refine ⟨(upTo left rest').dropLast, rest', ?_, hrest⟩
  rw [hskip', Delimiter.left, Latex.readGroup?, hclosed]

/-- A note that lacks an argument in a text lacks one in the other. -/
theorem noteEnd?_eq_none (h : Refilled text text') (hend : noteEnd? text = none) :
    noteEnd? text' = none := by
  rw [Option.eq_none_iff_forall_ne_some]
  intro left hleft
  unfold noteEnd? at hleft
  split at hleft
  · next key mid hkey =>
    obtain ⟨⟨body, last⟩, hbody, -⟩ := Option.map_eq_some_iff.mp hleft
    obtain ⟨key', mid', hkey', hmid⟩ := h.symm.readGroup? hkey
    obtain ⟨body', last', hbody', -⟩ := hmid.readGroup? hbody
    rw [noteEnd?, hkey'] at hend
    dsimp only at hend
    rw [hbody'] at hend
    cases hend
  · cases hleft

theorem environmentName?_eq_none (h : Refilled text text') (henv : environmentName? text = none) :
    environmentName? text' = none := by
  rw [Option.eq_none_iff_forall_ne_some]
  intro found hfound
  obtain ⟨⟨name, left⟩, hname, -⟩ := Option.map_eq_some_iff.mp hfound
  obtain ⟨name', left', hname', -⟩ := h.symm.readGroup? hname
  rw [environmentName?, hname'] at henv
  cases henv

theorem argumentFollows (h : Refilled text text') (hfollows : State.argumentFollows text = true) :
    State.argumentFollows text' = true := by
  unfold State.argumentFollows at hfollows
  split at hfollows
  · next c rest hskip =>
    obtain ⟨delimiter, rfl⟩ : ∃ delimiter : Delimiter, c = delimiter.left := by
      simp only [Bool.or_eq_true, decide_eq_true_eq] at hfollows
      rcases hfollows with rfl | rfl
      · exact ⟨.brace, rfl⟩
      · exact ⟨.bracket, rfl⟩
    obtain ⟨rest', hskip', -⟩ := h.skipBlanks hskip
    rw [State.argumentFollows, hskip']
    cases delimiter <;> rfl
  · cases hfollows

/-- An argument follows in both texts or in none. -/
theorem argumentFollows_eq (h : Refilled text text') :
    State.argumentFollows text = State.argumentFollows text' := by
  rw [Bool.eq_iff_iff]
  exact ⟨h.argumentFollows, h.symm.argumentFollows⟩

theorem closes (h : Refilled text text') {depth : Nat} (hcloses : Closes depth text) :
    Closes depth text' := by
  induction h generalizing depth with
  | nil => exact hcloses
  | note hnote hnote' _ ih =>
    rw [(hnote _).closes_note] at hcloses
    rw [(hnote' _).closes_note]
    exact ih hcloses
  | @piece lexeme piece left left' hbegins hbegins' hnote hverbatim _ ih =>
    rw [hbegins.closes_iff hverbatim] at hcloses
    rw [hbegins'.closes_iff hverbatim]
    unfold Lexeme.ClosesBehind at hcloses ⊢
    split at hcloses
    · exact ih hcloses
    · exact hcloses
    · exact ih hcloses
    · trivial
    · next hbrace hzero hsucc hbracket => exact ih hcloses

/-- A bracketed argument closes in both texts or in none. -/
theorem bracketCloses_eq (h : Refilled text text') : bracketCloses text = bracketCloses text' :=
  Relocation.bracketCloses_eq fun _ => ⟨h.closes, h.symm.closes⟩

end Refilled

/-! ### Replacing the notes of a text -/

/-- A lexeme is read again in front of a text that is read alike. -/
theorem Begins.refilled (h : Begins lexeme piece rest) (hverbatim : lexeme ≠ .verbatim)
    (hrest : Refilled rest rest') : Begins lexeme piece rest' := by
  rcases Lexeme.cases hverbatim with hregular | rfl | rfl
  · cases h.lexes hregular with
    | comment hline => exact (Lexes.comment hline).begins
    | openComment hline => exact hrest.eq_nil ▸ h
    | escape hc => exact (Lexes.escape hc).begins
    | bare => exact hrest.eq_nil ▸ h
    | command hname hstops => exact (Lexes.command hname (hrest.stops hstops)).begins
    | starred hname => exact (Lexes.starred hname).begins
    | note hargs => exact (Lexes.note hargs).begins
    | opening hargs hnone => exact (Lexes.opening hargs hnone).begins
    | ending hargs => exact (Lexes.ending hargs).begins
    | left => exact Lexes.left.begins
    | right => exact Lexes.right.begins
    | blanks hne hrun hstops => exact (Lexes.blanks hne hrun (hrest.stops hstops)).begins
    | plain hc hblank => exact (Lexes.plain hc hblank).begins
  · obtain ⟨rfl, hstops, hend⟩ := h.brokenNote
    exact begins_brokenNote (hrest.stops hstops) (hrest.noteEnd?_eq_none hend)
  · obtain ⟨name, hname, rfl, hstops, henv⟩ := h.nameless
    exact begins_nameless hname (hrest.stops hstops) (hrest.environmentName?_eq_none henv)

theorem refilled_self (hverbatim : .verbatim ∉ lexemes text) : Refilled text text := by
  fun_induction lexemes text with
  | case1 => exact .nil
  | case2 c text ih =>
    obtain ⟨hlexeme, hrest⟩ := List.ne_and_not_mem_of_not_mem_cons hverbatim
    have hbegins := begins_read c text
    rw [← upTo_append ((read_suffix c text).trans (List.suffix_cons c text))]
    by_cases hnote : (read c text).1 = .note
    · rw [hnote] at hbegins
      exact .note hbegins.isNote hbegins.isNote (ih hrest)
    · exact .piece hbegins hbegins hnote (Ne.symm hlexeme) (ih hrest)

/-- **A text with other notes is read alike**, and cut at its notes it is the text with these notes. -/
theorem refilled_refill {notes : List Text} (hverbatim : .verbatim ∉ lexemes text)
    (hlength : notes.length = (Noted.ofText text).notes.length) (hnotes : ∀ note ∈ notes, IsNote note) :
    Refilled text ((Noted.ofText text).refill notes).toText ∧
      Noted.ofText ((Noted.ofText text).refill notes).toText = (Noted.ofText text).refill notes := by
  fun_induction lexemes text generalizing notes with
  | case1 =>
    have hnil : (Noted.ofText []).refill notes = ⟨[], []⟩ := by
      rw [Noted.ofText]
      rfl
    rw [hnil]
    exact ⟨.nil, by rw [show (⟨[], []⟩ : Noted).toText = [] from rfl, Noted.ofText]⟩
  | case2 c text ih =>
    obtain ⟨hlexeme, hrest⟩ := List.ne_and_not_mem_of_not_mem_cons hverbatim
    have hbegins := begins_read c text
    rw [← upTo_append ((read_suffix c text).trans (List.suffix_cons c text))] at hlength ⊢
    generalize read c text = found at *
    obtain ⟨lexeme, left⟩ := found
    generalize upTo (c :: text) left = piece at *
    by_cases hnote : lexeme = .note
    · subst hnote
      rw [hbegins.ofText_note] at hlength ⊢
      cases notes with
      | nil => cases hlength
      | cons note notes =>
        obtain ⟨hnote, hnotes⟩ := List.forall_mem_cons.mp hnotes
        obtain ⟨halike, hcut⟩ := ih hrest (Nat.succ.inj hlength) hnotes
        rw [Noted.refill_put, Noted.toText_put, (hnote _).ofText_note, hcut]
        exact ⟨.note hbegins.isNote hnote halike, rfl⟩
    · rw [hbegins.ofText_push hnote, Noted.notes_push] at hlength
      obtain ⟨halike, hcut⟩ := ih hrest hlength hnotes
      have hbegins' := hbegins.refilled (Ne.symm hlexeme) halike
      rw [hbegins.ofText_push hnote, Noted.refill_push _ _ _ hlength, Noted.toText_push,
        hbegins'.ofText_push hnote, hcut]
      exact ⟨.piece hbegins hbegins' hnote (Ne.symm hlexeme) halike, rfl⟩

end Marginalia.Relocation
