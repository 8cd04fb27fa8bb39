import Marginalia.Latex.Scan
import Marginalia.Proofs.Text

/-! # What the scanners read

A scanner reads a front of its text and leaves the rest.  It reads the same front whatever the rest
is (`…_replace`), and the scan of a group or of a bracketed argument passes over what another
scanner reads: a control sequence, a comment, a group (`closeGroup_…`).

How a bracketed argument ends depends on the groups that are open where it is asked.
`scanInside depth text` closes `depth` groups first, and goes from a text to its rest piece by piece
(`scanInside_…`).  `Closes depth text` says that the argument closes, so it goes along (`closes_…`).

All scans go the same way through a text, from one control sequence, comment or character to the next;
they differ in where they stop.  `ComesTo text rest` says that they come to `rest` if they do not stop
before.
-/
namespace Marginalia

open Text

namespace Latex

/-! ### Scanning -/

/-- A character that is neither an escape, nor a brace, nor the beginning of a comment. -/
structure Inert (c : Char) : Prop where
  escape : c ≠ '\\'
  left : c ≠ '{'
  right : c ≠ '}'
  comment : c ≠ '%'

instance (c : Char) : Decidable (Inert c) :=
  decidable_of_iff (c ≠ '\\' ∧ c ≠ '{' ∧ c ≠ '}' ∧ c ≠ '%')
    ⟨fun ⟨h₁, h₂, h₃, h₄⟩ => ⟨h₁, h₂, h₃, h₄⟩, fun ⟨h₁, h₂, h₃, h₄⟩ => ⟨h₁, h₂, h₃, h₄⟩⟩

/-- A character that means nothing to the pass but itself. -/
structure Plain (c : Char) : Prop extends Inert c where
  leftBracket : c ≠ '['
  rightBracket : c ≠ ']'

instance (c : Char) : Decidable (Plain c) :=
  decidable_of_iff (Inert c ∧ c ≠ '[' ∧ c ≠ ']')
    ⟨fun ⟨h, hl, hr⟩ => ⟨h, hl, hr⟩, fun ⟨h, hl, hr⟩ => ⟨h, hl, hr⟩⟩

theorem plain_of_isTexBlank {c : Char} (h : isTexBlank c = true) : Plain c := by
  simp only [isTexBlank, Bool.or_eq_true, beq_iff_eq] at h
  rcases h with ((rfl | rfl) | rfl) | rfl <;>
    exact ⟨⟨by decide, by decide, by decide, by decide⟩, by decide, by decide⟩

/-- Letters are the characters of two ranges. -/
theorem toNat_of_isAlpha {c : Char} (h : c.isAlpha = true) :
    65 ≤ c.toNat ∧ c.toNat ≤ 90 ∨ 97 ≤ c.toNat ∧ c.toNat ≤ 122 := by
  have hletter : (c.isUpper || c.isLower) = true := h
  rcases Bool.or_eq_true_iff.mp hletter with hupper | hlower
  · have hbounds : 'A'.val ≤ c.val ∧ c.val ≤ 'Z'.val := of_decide_eq_true hupper
    exact .inl ⟨UInt32.le_iff_toNat_le.mp hbounds.1, UInt32.le_iff_toNat_le.mp hbounds.2⟩
  · have hbounds : ('a'.val ≤ c.val && c.val ≤ 'z'.val) = true := hlower
    obtain ⟨hleft, hright⟩ := Bool.and_eq_true_iff.mp hbounds
    exact .inr ⟨UInt32.le_iff_toNat_le.mp (of_decide_eq_true hleft),
      UInt32.le_iff_toNat_le.mp (of_decide_eq_true hright)⟩

theorem inert_of_isAlpha {c : Char} (h : c.isAlpha = true) : Inert c := by
  constructor <;> rintro rfl <;> exact absurd h (by decide)

theorem closeGroup_cons {depth : Nat} {c : Char} (h : Inert c) (text : Text) :
    closeGroup depth (c :: text) = closeGroup depth text := by
  rw [closeGroup]
  · exact h.escape
  · exact h.comment
  · exact h.left
  · exact h.right

theorem closeGroup_append {depth : Nat} {word : Text} (h : ∀ c ∈ word, Inert c) (rest : Text) :
    closeGroup depth (word ++ rest) = closeGroup depth rest := by
  induction word with
  | nil => rfl
  | cons c word ih =>
    rw [List.cons_append, closeGroup_cons (h c List.mem_cons_self)]
    exact ih fun d hd => h d (List.mem_cons_of_mem _ hd)

/-- A scan passes over a backslash and the character behind it: the other letters of a word end no
group. -/
theorem closeGroup_escape (depth : Nat) (c : Char) (text : Text) :
    closeGroup depth ('\\' :: c :: text) = closeGroup depth text := by
  rw [closeGroup, readControl]
  split
  · calc closeGroup depth (text.dropWhile Char.isAlpha)
        = closeGroup depth (text.takeWhile Char.isAlpha ++ text.dropWhile Char.isAlpha) := by
          refine (closeGroup_append (fun d hd => ?_) _).symm
          exact inert_of_isAlpha (List.all_eq_true.mp List.all_takeWhile d hd)
      _ = closeGroup depth text := by rw [List.takeWhile_append_dropWhile]
  · rfl

/-- A group without groups in it is read as a whole. -/
theorem readGroup?_append {word : Text} (h : ∀ c ∈ word, Inert c) (rest : Text) :
    readGroup? ('{' :: (word ++ '}' :: rest)) = some (word, rest) := by
  have hclose : closeGroup 1 (word ++ '}' :: rest) = .closed rest := by
    rw [closeGroup_append h, closeGroup, if_pos (Nat.le_refl 1)]
  have hupTo : upTo (word ++ '}' :: rest) rest = word ++ ['}'] := by
    rw [List.append_cons, upTo_append_right]
  rw [readGroup?, hclose]
  simp only [hupTo, List.dropLast_concat]

theorem closeGroup_right {depth : Nat} (hdepth : 1 ≤ depth) (rest : Text) :
    closeGroup (depth + 1) ('}' :: rest) = closeGroup depth rest := by
  rw [closeGroup, if_neg (by omega), Nat.add_sub_cancel]

/-- A scan passes over a group without groups in it. -/
theorem closeGroup_group {depth : Nat} (hdepth : 1 ≤ depth) {word : Text}
    (h : ∀ c ∈ word, Inert c) (rest : Text) :
    closeGroup depth ('{' :: (word ++ '}' :: rest)) = closeGroup depth rest := by
  rw [closeGroup, closeGroup_append h, closeGroup_right hdepth]

/-- A bracketed argument closes in this text. -/
def BracketCloses (text : Text) : Prop :=
  ∃ rest, scanBracket text = .closed rest

theorem bracketCloses_right (text : Text) : BracketCloses (']' :: text) :=
  ⟨text, by rw [scanBracket]⟩

theorem BracketCloses.cons {c : Char} {text : Text} (h : Inert c) (hc : BracketCloses text) :
    BracketCloses (c :: text) := by
  by_cases hright : c = ']'
  · rw [hright]
    exact bracketCloses_right text
  · obtain ⟨rest, hrest⟩ := hc
    refine ⟨rest, ?_⟩
    rw [scanBracket]
    · exact hrest
    · exact h.escape
    · exact h.comment
    · exact h.left
    · exact h.right
    · exact hright

theorem BracketCloses.escape {text : Text} (h : BracketCloses (readControl text).2) :
    BracketCloses ('\\' :: text) := by
  obtain ⟨rest, hrest⟩ := h
  exact ⟨rest, by rw [scanBracket, hrest]⟩

theorem BracketCloses.group {text rest : Text} (h : BracketCloses rest)
    (hgroup : closeGroup 1 text = .closed rest) : BracketCloses ('{' :: text) := by
  obtain ⟨after, hafter⟩ := h
  refine ⟨after, ?_⟩
  rw [scanBracket]
  split
  · next r hr =>
    rw [hgroup, Closing.closed.injEq] at hr
    rw [← hr, hafter]
  · next depth hr =>
    rw [hgroup] at hr
    cases hr

/-- Groups before the end of an argument are passed over. -/
theorem BracketCloses.inertGroup {word rest : Text} (hword : ∀ c ∈ word, Inert c)
    (h : BracketCloses rest) : BracketCloses ('{' :: (word ++ '}' :: rest)) := by
  refine h.group ?_
  rw [closeGroup_append hword, closeGroup, if_pos (Nat.le_refl 1)]

theorem BracketCloses.readBracket? {text : Text} (h : BracketCloses text) :
    (Latex.readBracket? ('[' :: text)).isSome = true := by
  obtain ⟨rest, hrest⟩ := h
  rw [Latex.readBracket?, hrest]
  rfl

/-! ### Control sequences -/

/-- A word of letters is read as a control word where something else follows. -/
theorem readControl_word {name : String} (hne : name ≠ "")
    (hletters : ∀ c ∈ name.toList, c.isAlpha = true) {rest : Text} (hrest : Stops Char.isAlpha rest) :
    readControl (name.toList ++ rest) = (.word name, rest) := by
  cases hname : name.toList with
  | nil => exact absurd (String.toList_eq_nil_iff.mp hname) hne
  | cons c letters =>
    rw [hname] at hletters
    have hc : c.isAlpha = true := hletters c List.mem_cons_self
    obtain ⟨htake, hdrop⟩ :=
      takeWhile_append_stop (fun d hd => hletters d (List.mem_cons_of_mem _ hd)) hrest
    rw [List.cons_append, readControl, if_pos hc, htake, hdrop, ← hname, String.ofList_toList]

theorem closeGroup_word {depth : Nat} {name : String} (hne : name ≠ "")
    (hletters : ∀ c ∈ name.toList, c.isAlpha = true) {rest : Text} (hrest : Stops Char.isAlpha rest) :
    closeGroup depth ('\\' :: (name.toList ++ rest)) = closeGroup depth rest := by
  rw [closeGroup, readControl_word hne hletters hrest]

theorem BracketCloses.word {name : String} (hne : name ≠ "")
    (hletters : ∀ c ∈ name.toList, c.isAlpha = true) {rest : Text} (hrest : Stops Char.isAlpha rest)
    (h : BracketCloses rest) : BracketCloses ('\\' :: (name.toList ++ rest)) := by
  refine BracketCloses.escape ?_
  rwa [readControl_word hne hletters hrest]

namespace Verbatim

theorem begins?_eq_none {text : Text} (h : ∀ env : Verbatim, ¬ env.opening <+: text) :
    begins? text = none := by
  rw [begins?, List.findSome?_eq_none_iff]
  intro env _
  rw [isPrefixOf?_eq_none (h env), Option.map_none]

theorem not_opening_of_begins?_eq_none {text : Text} (h : begins? text = none) (env : Verbatim) :
    ¬ env.opening <+: text := by
  rintro ⟨rest, rfl⟩
  rw [begins?, List.findSome?_eq_none_iff] at h
  have henv := h env (by cases env <;> decide)
  rw [isPrefixOf?_append] at henv
  cases henv

theorem opening_append (env : Verbatim) (rest : Text) :
    env.opening ++ rest = '\\' :: ("begin".toList ++ '{' :: (env.name ++ '}' :: rest)) := by
  cases env <;> rfl

/-- No control symbol begins a verbatim environment. -/
theorem begins?_symbol {c : Char} (hc : c.isAlpha = false) (rest : Text) :
    begins? ('\\' :: c :: rest) = none := by
  refine begins?_eq_none fun env => ?_
  rintro ⟨after, hafter⟩
  rw [opening_append, List.cons.injEq] at hafter
  obtain ⟨rfl, -⟩ : 'b' = c ∧ _ := List.cons.inj hafter.2
  exact absurd hc (by decide)

/-- Behind the word `begin` a verbatim environment begins if its name follows. -/
theorem begins?_begin_eq_none_iff {rest : Text} :
    begins? ('\\' :: ("begin".toList ++ rest)) = none ↔
      ∀ (env : Verbatim) (after : Text), rest ≠ '{' :: (env.name ++ '}' :: after) := by
  constructor
  · rintro h env after rfl
    exact not_opening_of_begins?_eq_none h env ⟨after, opening_append env after⟩
  · intro h
    refine begins?_eq_none fun env => ?_
    rintro ⟨after, hafter⟩
    rw [opening_append, List.cons.injEq, List.append_cancel_left_eq] at hafter
    exact h env after hafter.2.symm

/-- Only the word `begin` begins a verbatim environment. -/
theorem begins?_word {name : String} (hletters : ∀ c ∈ name.toList, c.isAlpha = true)
    (hname : name ≠ "begin") {rest : Text} (hrest : Stops Char.isAlpha rest) :
    begins? ('\\' :: (name.toList ++ rest)) = none := by
  refine begins?_eq_none fun env => ?_
  rintro ⟨after, hafter⟩
  rw [opening_append, List.cons.injEq] at hafter
  have hbegin : ∀ c ∈ "begin".toList, c.isAlpha = true := by decide
  have hstops : Stops Char.isAlpha ('{' :: (env.name ++ '}' :: after)) := stops_cons.mpr (by decide)
  obtain ⟨hword, -⟩ := append_stop_inj hbegin hletters hstops hrest hafter.2
  exact hname (String.toList_inj.mp hword.symm)

/-- An environment of another name is not verbatim. -/
theorem begins?_environment {word : Text} (hword : ∀ c ∈ word, Inert c)
    (hname : ∀ env : Verbatim, env.name ≠ word) (rest : Text) :
    begins? ('\\' :: ("begin".toList ++ '{' :: (word ++ '}' :: rest))) = none := by
  refine begins?_begin_eq_none_iff.mpr fun env after hafter => ?_
  have henv : ∀ c ∈ env.name, (c != '}') = true := by cases env <;> decide
  have hword' : ∀ c ∈ word, (c != '}') = true := fun c hc => bne_iff_ne.mpr (hword c hc).right
  have hstops : ∀ rest : Text, Stops (· != '}') ('}' :: rest) := fun rest => stops_cons.mpr rfl
  obtain ⟨heq, -⟩ := append_stop_inj hword' henv (hstops rest) (hstops after)
    (List.cons.inj hafter).2
  exact hname env heq.symm

end Verbatim

/-! ### Readers and what follows -/

/-- What a control sequence is: a word of letters that stops, another character, or nothing. -/
theorem readControl_cases (text : Text) :
    (∃ name rest, readControl text = (.word name, rest) ∧ text = name.toList ++ rest ∧ name ≠ "" ∧
      (∀ c ∈ name.toList, c.isAlpha = true) ∧ Stops Char.isAlpha rest) ∨
    (∃ c rest, readControl text = (.symbol c, rest) ∧ text = c :: rest ∧ c.isAlpha = false) ∨
    (readControl text = (.bare, []) ∧ text = []) := by
  cases text with
  | nil => exact .inr (.inr ⟨rfl, rfl⟩)
  | cons c text =>
    by_cases hc : c.isAlpha = true
    · refine .inl ⟨String.ofList (c :: text.takeWhile Char.isAlpha), text.dropWhile Char.isAlpha,
        ?_, ?_, ?_, ?_, ?_⟩
      · rw [readControl, if_pos hc]
      · rw [String.toList_ofList, List.cons_append, List.takeWhile_append_dropWhile]
      · rw [ne_eq, ← String.toList_eq_nil_iff, String.toList_ofList]
        exact List.cons_ne_nil _ _
      · intro d hd
        rw [String.toList_ofList, List.mem_cons] at hd
        rcases hd with rfl | hd
        · exact hc
        · exact List.all_eq_true.mp List.all_takeWhile d hd
      · exact stops_dropWhile _ _
    · exact .inr (.inl ⟨c, text, by rw [readControl, if_neg hc], rfl, by simpa using hc⟩)

/-- A control sequence before another character is the same whatever follows that character. -/
theorem readControl_replace {text rest : Text} {control : Control} {c : Char}
    (h : readControl text = (control, c :: rest)) :
    ∃ front, text = front ++ c :: rest ∧
      ∀ rest', readControl (front ++ c :: rest') = (control, c :: rest') := by
  rcases readControl_cases text with ⟨name, r, hr, htext, hne, hletters, hstops⟩ |
    ⟨d, r, hr, htext, hd⟩ | ⟨hr, -⟩
  · obtain ⟨rfl, rfl⟩ := Prod.mk.inj (h.symm.trans hr)
    refine ⟨name.toList, htext, fun rest' => readControl_word hne hletters ?_⟩
    exact stops_cons.mpr (stops_cons.mp hstops)
  · obtain ⟨rfl, rfl⟩ := Prod.mk.inj (h.symm.trans hr)
    refine ⟨[d], htext, fun rest' => ?_⟩
    rw [List.singleton_append, readControl, if_neg (by simp [hd])]
  · cases (Prod.mk.inj (h.symm.trans hr)).2

theorem dropComment_append {line : Text} (h : '\n' ∉ line) (rest : Text) :
    dropComment (line ++ rest) = dropComment rest := by
  induction line with
  | nil => rfl
  | cons c line ih =>
    rw [List.mem_cons, not_or] at h
    rw [List.cons_append, dropComment, if_neg (Ne.symm h.1), ih h.2]

theorem dropComment_line {line : Text} (h : ∀ c ∈ line, c ≠ '\n') :
    dropComment line = [] ∧ ∀ rest, dropComment (line ++ '\n' :: rest) = rest := by
  have hline : '\n' ∉ line := fun hmem => h _ hmem rfl
  refine ⟨?_, fun rest => ?_⟩
  · rw [← List.append_nil line, dropComment_append hline, dropComment]
  · rw [dropComment_append hline, dropComment, if_pos rfl]

/-- A comment is a line and its end, or what is left of the text. -/
theorem dropComment_cases (text : Text) :
    ∃ line, (∀ c ∈ line, c ≠ '\n') ∧
      (text = line ++ '\n' :: dropComment text ∨ text = line ∧ dropComment text = []) := by
  induction text with
  | nil => exact ⟨[], by simp, .inr ⟨rfl, rfl⟩⟩
  | cons c text ih =>
    by_cases hc : c = '\n'
    · exact ⟨[], by simp, .inl (by rw [dropComment, if_pos hc, hc, List.nil_append])⟩
    · obtain ⟨line, hline, h⟩ := ih
      refine ⟨c :: line, ?_, ?_⟩
      · intro d hd
        rcases List.mem_cons.mp hd with rfl | hd
        · exact hc
        · exact hline d hd
      · rw [dropComment, if_neg hc]
        rcases h with h | ⟨htext, hnil⟩
        · exact .inl (congrArg (c :: ·) h)
        · exact .inr ⟨congrArg (c :: ·) htext, hnil⟩

/-- A comment before another character is the same whatever follows. -/
theorem dropComment_replace {text rest : Text} {c : Char} (h : dropComment text = c :: rest) :
    ∃ front, text = front ++ c :: rest ∧ ∀ rest', dropComment (front ++ rest') = rest' := by
  obtain ⟨line, hline, htext | ⟨-, hnil⟩⟩ := dropComment_cases text
  · refine ⟨line ++ ['\n'], ?_, fun rest' => ?_⟩
    · rw [h] at htext
      rw [htext, List.append_assoc, List.singleton_append]
    · rw [List.append_assoc, List.singleton_append, (dropComment_line hline).2]
  · rw [hnil] at h
    cases h

theorem skipBlanksUpTo_replace {newline : Bool} {text rest : Text} {c : Char}
    (h : skipBlanksUpTo newline text = c :: rest) :
    ∃ front, text = front ++ c :: rest ∧ (∀ d ∈ front, isTexBlank d = true) ∧
      ∀ rest', skipBlanksUpTo newline (front ++ c :: rest') = c :: rest' := by
  induction text generalizing newline with
  | nil => cases h
  | cons d text ih =>
    rw [skipBlanksUpTo] at h
    by_cases hd : d = ' ' ∨ d = '\t' ∨ d = '\r'
    · rw [if_pos hd] at h
      obtain ⟨front, htext, hfront, hrest⟩ := ih h
      refine ⟨d :: front, by rw [htext, List.cons_append], ?_, fun rest' => ?_⟩
      · refine List.forall_mem_cons.mpr ⟨?_, hfront⟩
        rcases hd with rfl | rfl | rfl <;> rfl
      · rw [List.cons_append, skipBlanksUpTo, if_pos hd, hrest]
    · rw [if_neg hd] at h
      by_cases hline : d = '\n' ∧ newline = true
      · rw [if_pos hline] at h
        obtain ⟨front, htext, hfront, hrest⟩ := ih h
        refine ⟨d :: front, by rw [htext, List.cons_append], ?_, fun rest' => ?_⟩
        · exact List.forall_mem_cons.mpr ⟨by rw [hline.1]; rfl, hfront⟩
        · rw [List.cons_append, skipBlanksUpTo, if_neg hd, if_pos hline, hrest]
      · rw [if_neg hline] at h
        obtain ⟨rfl, rfl⟩ := List.cons.inj h
        exact ⟨[], rfl, by simp, fun rest' => by
          rw [List.nil_append, skipBlanksUpTo, if_neg hd, if_neg hline]⟩

/-- The white space before a character is skipped whatever follows the character. -/
theorem skipBlanks_replace {text rest : Text} {c : Char} (h : skipBlanks text = c :: rest) :
    ∃ front, text = front ++ c :: rest ∧ (∀ d ∈ front, isTexBlank d = true) ∧
      ∀ rest', skipBlanks (front ++ c :: rest') = c :: rest' :=
  skipBlanksUpTo_replace h

theorem skipBlanksUpTo_of_stops {text : Text} (h : Stops isTexBlank text) (newline : Bool) :
    skipBlanksUpTo newline text = text := by
  cases text with
  | nil => rfl
  | cons c text =>
    rw [stops_cons] at h
    simp only [isTexBlank, Bool.or_eq_false_iff, beq_eq_false_iff_ne] at h
    rw [skipBlanksUpTo, if_neg (by simp [h]), if_neg (by simp [h])]

/-- White space is skipped as long as it holds at most one line feed. -/
theorem skipBlanksUpTo_blank {c : Char} (hc : isTexBlank c = true) {blanks : Text}
    (h : (blanks ++ [c]).count '\n' ≤ 1) (text : Text) :
    skipBlanksUpTo (blanks.count '\n' = 0) (c :: text) =
      skipBlanksUpTo ((blanks ++ [c]).count '\n' = 0) text := by
  by_cases hnewline : c = '\n'
  · subst hnewline
    rw [List.count_append, List.count_singleton_self] at h ⊢
    have hzero : blanks.count '\n' = 0 := by omega
    simp [skipBlanksUpTo, hzero]
  · have hspace : c = ' ' ∨ c = '\t' ∨ c = '\r' := by
      simpa [isTexBlank, hnewline, or_assoc] using hc
    have hcount : (blanks ++ [c]).count '\n' = blanks.count '\n' := by
      simp [hnewline]
    rw [hcount, skipBlanksUpTo, if_pos hspace]

/-- A run of white space with at most one line feed, this with what was skipped before, is skipped. -/
theorem skipBlanksUpTo_run {blanks run text : Text} (hrun : ∀ c ∈ run, isTexBlank c = true)
    (h : (blanks ++ run).count '\n' ≤ 1) (htext : Stops isTexBlank text) :
    skipBlanksUpTo (blanks.count '\n' = 0) (run ++ text) = text := by
  induction run generalizing blanks with
  | nil => exact skipBlanksUpTo_of_stops htext _
  | cons c run ih =>
    obtain ⟨hc, hrun⟩ := List.forall_mem_cons.mp hrun
    rw [List.append_cons] at h
    have hfront : (blanks ++ [c]).count '\n' ≤ 1 := by
      rw [List.count_append] at h
      omega
    rw [List.cons_append, skipBlanksUpTo_blank hc hfront, ih hrun h]

theorem closeGroup_skipBlanks (depth : Nat) (text : Text) :
    closeGroup depth (skipBlanks text) = closeGroup depth text := by
  have key (newline : Bool) : closeGroup depth (skipBlanksUpTo newline text) =
      closeGroup depth text := by
    induction text generalizing newline with
    | nil => rfl
    | cons c text ih =>
      rw [skipBlanksUpTo]
      split
      · next hc => rw [ih, closeGroup_cons]; rcases hc with rfl | rfl | rfl <;> decide
      · split
        · next hc => rw [ih, closeGroup_cons]; rw [hc.1]; decide
        · rfl
  exact key true

/-- A group ends with its closing brace. -/
theorem exists_of_closeGroup {depth : Nat} {text rest : Text}
    (h : closeGroup depth text = .closed rest) : ∃ front, text = front ++ '}' :: rest := by
  have hcons {s t : Text} (c : Char) (hs : s <:+ t) (ht : ∃ front, s = front ++ '}' :: rest) :
      ∃ front, c :: t = front ++ '}' :: rest := by
    obtain ⟨passed, rfl⟩ := hs
    obtain ⟨front, rfl⟩ := ht
    exact ⟨c :: (passed ++ front), by simp⟩
  fun_induction closeGroup depth text with
  | case1 => cases h
  | case2 depth text ih => exact hcons _ (readControl_suffix text) (ih h)
  | case3 depth text ih => exact hcons _ (dropComment_suffix text) (ih h)
  | case4 depth text ih => exact hcons _ List.suffix_rfl (ih h)
  | case5 depth text hle =>
    obtain rfl : text = rest := Closing.closed.inj h
    exact ⟨[], rfl⟩
  | case6 depth text hle ih => exact hcons _ List.suffix_rfl (ih h)
  | case7 depth c text _ _ _ _ ih => exact hcons _ List.suffix_rfl (ih h)

/-- A group ends where it does whatever follows. -/
theorem closeGroup_replace {depth : Nat} {text rest : Text}
    (h : closeGroup depth text = .closed rest) :
    ∃ front, text = front ++ rest ∧ ∀ rest', closeGroup depth (front ++ rest') = .closed rest' := by
  -- What is read before the group ends is never empty, as an empty text ends no group.
  have hne {depth : Nat} {front : Text}
      (hfront : ∀ rest', closeGroup depth (front ++ rest') = .closed rest') :
      ∃ c tail, front = c :: tail := by
    cases front with
    | nil =>
      have hnil := hfront []
      rw [List.nil_append, closeGroup] at hnil
      cases hnil
    | cons c tail => exact ⟨c, tail, rfl⟩
  fun_induction closeGroup depth text with
  | case1 => cases h
  | case2 depth text ih =>
    obtain ⟨front, hread, hfront⟩ := ih h
    obtain ⟨c, tail, rfl⟩ := hne hfront
    obtain ⟨word, htext, hword⟩ := readControl_replace (Prod.ext rfl hread)
    refine ⟨'\\' :: (word ++ c :: tail), ?_, fun rest' => ?_⟩
    · rw [htext, List.cons_append, List.append_assoc]
      rfl
    · rw [List.cons_append, List.append_assoc, List.cons_append, closeGroup, hword]
      exact hfront rest'
  | case3 depth text ih =>
    obtain ⟨front, hread, hfront⟩ := ih h
    obtain ⟨c, tail, rfl⟩ := hne hfront
    obtain ⟨line, htext, hline⟩ := dropComment_replace hread
    refine ⟨'%' :: (line ++ c :: tail), ?_, fun rest' => ?_⟩
    · rw [htext, List.cons_append, List.append_assoc]
      rfl
    · rw [List.cons_append, List.append_assoc, closeGroup, hline]
      exact hfront rest'
  | case4 depth text ih =>
    obtain ⟨front, htext, hfront⟩ := ih h
    exact ⟨'{' :: front, by rw [htext]; rfl, fun rest' => by
      rw [List.cons_append, closeGroup, hfront]⟩
  | case5 depth text hdepth =>
    obtain rfl : text = rest := Closing.closed.inj h
    exact ⟨['}'], rfl, fun rest' => by rw [List.singleton_append, closeGroup, if_pos hdepth]⟩
  | case6 depth text hdepth ih =>
    obtain ⟨front, htext, hfront⟩ := ih h
    exact ⟨'}' :: front, by rw [htext]; rfl, fun rest' => by
      rw [List.cons_append, closeGroup, if_neg hdepth, hfront]⟩
  | case7 depth c text hescape hcomment hleft hright ih =>
    obtain ⟨front, htext, hfront⟩ := ih h
    exact ⟨c :: front, by rw [htext]; rfl, fun rest' => by
      rw [List.cons_append, closeGroup_cons ⟨hescape, hleft, hright, hcomment⟩, hfront]⟩

/-- A group is read whatever follows. -/
theorem readGroup?_replace {text body rest : Text} (h : readGroup? text = some (body, rest)) :
    ∃ inner, text = '{' :: (inner ++ rest) ∧ ∀ rest',
      readGroup? ('{' :: (inner ++ rest')) = some (body, rest') ∧
        closeGroup 1 (inner ++ rest') = .closed rest' := by
  unfold readGroup? at h
  split at h
  · next text =>
    split at h
    · next r hr =>
      obtain ⟨hbody, rfl⟩ : _ ∧ r = rest := by simpa using h
      obtain ⟨inner, rfl, hinner⟩ := closeGroup_replace hr
      refine ⟨inner, rfl, fun rest' => ⟨?_, hinner rest'⟩⟩
      rw [readGroup?, hinner]
      simp only [upTo_append_right] at hbody ⊢
      rw [hbody]
    · cases h
  · cases h

/-- A group is its content between braces. -/
theorem eq_of_readGroup? {text body rest : Text} (h : readGroup? text = some (body, rest)) :
    text = '{' :: (body ++ '}' :: rest) := by
  unfold readGroup? at h
  split at h
  · next text =>
    split at h
    · next after hclose =>
      obtain ⟨rfl, rfl⟩ : _ ∧ after = rest := by simpa using h
      obtain ⟨front, rfl⟩ := exists_of_closeGroup hclose
      have hfront : upTo (front ++ '}' :: after) after = front ++ ['}'] := by
        rw [← List.singleton_append, ← List.append_assoc, upTo_append_right]
      rw [hfront, List.dropLast_concat]
    · cases h
  · cases h

/-! ### Scans over a group -/

/-- The scan of the groups around a group goes on after it. -/
theorem closeGroup_add {inner depth : Nat} (hinner : 1 ≤ inner) (hdepth : 1 ≤ depth)
    {text rest : Text} (h : closeGroup inner text = .closed rest) :
    closeGroup (inner + depth) text = closeGroup depth rest := by
  fun_induction closeGroup inner text with
  | case1 => cases h
  | case2 inner text ih =>
    rw [closeGroup]
    exact ih hinner h
  | case3 inner text ih =>
    rw [closeGroup]
    exact ih hinner h
  | case4 inner text ih =>
    rw [closeGroup, Nat.add_right_comm]
    exact ih (by omega) h
  | case5 inner text hle =>
    obtain rfl : text = rest := Closing.closed.inj h
    rw [closeGroup, if_neg (by omega), show inner + depth - 1 = depth by omega]
  | case6 inner text hle ih =>
    rw [closeGroup, if_neg (by omega), show inner + depth - 1 = inner - 1 + depth by omega]
    exact ih (by omega) h
  | case7 inner c text hescape hcomment hleft hright ih =>
    rw [closeGroup_cons ⟨hescape, hleft, hright, hcomment⟩]
    exact ih hinner h

/-- A scan over groups passes over the text. -/
def Balanced (text : Text) : Prop :=
  ∀ depth rest, 1 ≤ depth → closeGroup depth (text ++ rest) = closeGroup depth rest

theorem balanced_nil : Balanced [] := fun _ _ _ => rfl

theorem Balanced.append {text text' : Text} (h : Balanced text) (h' : Balanced text') :
    Balanced (text ++ text') := by
  intro depth rest hdepth
  rw [List.append_assoc, h depth _ hdepth, h' depth rest hdepth]

theorem balanced_flatten {texts : List Text} (h : ∀ text ∈ texts, Balanced text) :
    Balanced texts.flatten := by
  induction texts with
  | nil => exact balanced_nil
  | cons text texts ih =>
    obtain ⟨htext, htexts⟩ := List.forall_mem_cons.mp h
    exact htext.append (ih htexts)

theorem balanced_of_inert {text : Text} (h : ∀ c ∈ text, Inert c) : Balanced text :=
  fun _ rest _ => closeGroup_append h rest

/-- A balanced text in braces is balanced. -/
theorem Balanced.group {text : Text} (h : Balanced text) : Balanced ('\x7b' :: (text ++ ['\x7d'])) := by
  intro depth rest hdepth
  rw [List.cons_append, List.append_assoc, List.singleton_append, closeGroup,
    h (depth + 1) _ (Nat.le_add_left 1 depth), closeGroup_right hdepth]

theorem balanced_symbol {c : Char} (hc : c.isAlpha = false) : Balanced ['\\', c] := by
  intro depth rest _
  rw [List.cons_append, List.singleton_append, closeGroup, readControl, if_neg (by simp [hc])]

/-- The group around a balanced text closes behind it. -/
theorem Balanced.closeGroup {text : Text} (h : Balanced text) (rest : Text) :
    Latex.closeGroup 1 (text ++ '\x7d' :: rest) = .closed rest := by
  rw [h 1 _ (Nat.le_refl 1), Latex.closeGroup, if_pos (Nat.le_refl 1)]

/-- A command in front of a balanced text that does not go on with its name. -/
theorem Balanced.command {name : String} {c : Char} {text : Text} (h : Balanced (c :: text))
    (hne : name ≠ "") (hletters : ∀ c ∈ name.toList, c.isAlpha = true) (hc : c.isAlpha = false) :
    Balanced ('\\' :: (name.toList ++ c :: text)) := by
  intro depth rest hdepth
  rw [List.cons_append, List.append_assoc,
    closeGroup_word hne hletters (by rw [List.cons_append]; exact stops_cons.mpr hc),
    h depth rest hdepth]

theorem scanBracket_left (text : Text) :
    scanBracket ('{' :: text) = match closeGroup 1 text with
      | .closed rest => scanBracket rest
      | .unclosed _ => .unclosed := by
  rw [scanBracket]
  split <;> simp_all

theorem scanBracket_cons {c : Char} (h : Inert c) (hright : c ≠ ']') (text : Text) :
    scanBracket (c :: text) = scanBracket text := by
  rw [scanBracket]
  · exact h.escape
  · exact h.comment
  · exact h.left
  · exact h.right
  · exact hright

/-! ### Inside a bracketed argument -/

/-- Scans a bracketed argument from where `depth` groups are open in it. -/
def scanInside : Nat → Text → BracketScan
  | 0, text => scanBracket text
  | depth + 1, text =>
    match closeGroup (depth + 1) text with
    | .closed rest => scanBracket rest
    | .unclosed _ => .unclosed

theorem scanInside_nil (depth : Nat) : scanInside depth [] = .unclosed := by
  cases depth with
  | zero => rw [scanInside, scanBracket]
  | succ depth => rw [scanInside, closeGroup]

theorem scanInside_escape (depth : Nat) (text : Text) :
    scanInside depth ('\\' :: text) = scanInside depth (readControl text).2 := by
  cases depth with
  | zero => rw [scanInside, scanInside, scanBracket]
  | succ depth => rw [scanInside, scanInside, closeGroup]

theorem scanInside_comment (depth : Nat) (text : Text) :
    scanInside depth ('%' :: text) = scanInside depth (dropComment text) := by
  cases depth with
  | zero => rw [scanInside, scanInside, scanBracket]
  | succ depth => rw [scanInside, scanInside, closeGroup]

theorem scanInside_cons {c : Char} (h : Inert c) (hright : c ≠ ']') (depth : Nat) (text : Text) :
    scanInside depth (c :: text) = scanInside depth text := by
  cases depth with
  | zero => rw [scanInside, scanInside, scanBracket_cons h hright]
  | succ depth => rw [scanInside, scanInside, closeGroup_cons h]

theorem scanInside_append {word : Text} (h : ∀ c ∈ word, Inert c ∧ c ≠ ']') (depth : Nat)
    (rest : Text) : scanInside depth (word ++ rest) = scanInside depth rest := by
  induction word with
  | nil => rfl
  | cons c word ih =>
    obtain ⟨hc, hword⟩ := List.forall_mem_cons.mp h
    rw [List.cons_append, scanInside_cons hc.1 hc.2, ih hword]

theorem scanInside_left (depth : Nat) (text : Text) :
    scanInside depth ('{' :: text) = scanInside (depth + 1) text := by
  cases depth with
  | zero => exact scanBracket_left text
  | succ depth => rw [scanInside, scanInside, closeGroup]

theorem scanInside_right (depth : Nat) (text : Text) :
    scanInside (depth + 1) ('}' :: text) = scanInside depth text := by
  rw [scanInside, closeGroup]
  cases depth with
  | zero => rfl
  | succ depth => rw [if_neg (by omega), Nat.add_sub_cancel, scanInside]

theorem scanInside_rightBracket (depth : Nat) (text : Text) :
    scanInside (depth + 1) (']' :: text) = scanInside (depth + 1) text := by
  rw [scanInside, scanInside, closeGroup_cons ⟨by decide, by decide, by decide, by decide⟩]

theorem scanInside_word {name : String} (hne : name ≠ "")
    (hletters : ∀ c ∈ name.toList, c.isAlpha = true) {rest : Text} (hrest : Stops Char.isAlpha rest)
    (depth : Nat) : scanInside depth ('\\' :: (name.toList ++ rest)) = scanInside depth rest := by
  rw [scanInside_escape, readControl_word hne hletters hrest]

/-- A group is passed over. -/
theorem scanInside_group {text rest : Text} (h : closeGroup 1 text = .closed rest) (depth : Nat) :
    scanInside depth ('{' :: text) = scanInside depth rest := by
  rw [scanInside_left]
  cases depth with
  | zero => rw [scanInside, scanInside, Nat.zero_add, h]
  | succ depth =>
    rw [scanInside, Nat.add_comm, closeGroup_add (Nat.le_refl 1) (Nat.succ_pos depth) h, scanInside]

/-- A scan inside a bracketed argument passes over the text. -/
def Sealed (text : Text) : Prop :=
  ∀ depth rest, scanInside depth (text ++ rest) = scanInside depth rest

theorem sealed_nil : Sealed [] := fun _ _ => rfl

theorem Sealed.append {text text' : Text} (h : Sealed text) (h' : Sealed text') :
    Sealed (text ++ text') := by
  intro depth rest
  rw [List.append_assoc, h, h']

theorem sealed_flatten {texts : List Text} (h : ∀ text ∈ texts, Sealed text) :
    Sealed texts.flatten := by
  induction texts with
  | nil => exact sealed_nil
  | cons text texts ih =>
    obtain ⟨htext, htexts⟩ := List.forall_mem_cons.mp h
    exact htext.append (ih htexts)

/-- Braces seal a balanced text. -/
theorem Balanced.sealed {text : Text} (h : Balanced text) : Sealed ('\x7b' :: (text ++ ['\x7d'])) := by
  intro depth rest
  rw [List.cons_append, List.append_assoc, List.singleton_append, scanInside_group (h.closeGroup rest)]

/-- A command in front of a sealed text that does not go on with its name. -/
theorem Sealed.command {name : String} {c : Char} {text : Text} (h : Sealed (c :: text))
    (hne : name ≠ "") (hletters : ∀ c ∈ name.toList, c.isAlpha = true) (hc : c.isAlpha = false) :
    Sealed ('\\' :: (name.toList ++ c :: text)) := by
  intro depth rest
  rw [List.cons_append, List.append_assoc,
    scanInside_word hne hletters (by rw [List.cons_append]; exact stops_cons.mpr hc), h]

/-! ### Whether a bracketed argument closes -/

/-- In the text, `depth` groups close, and then a bracketed argument does. -/
def Closes : Nat → Text → Prop
  | 0, text => BracketCloses text
  | depth + 1, text => ∃ rest, closeGroup (depth + 1) text = .closed rest ∧ BracketCloses rest

theorem closes_iff (depth : Nat) (text : Text) :
    Closes depth text ↔ ∃ rest, scanInside depth text = .closed rest := by
  cases depth with
  | zero => rfl
  | succ depth =>
    rw [Closes, scanInside]
    cases closeGroup (depth + 1) text <;> simp [BracketCloses]

theorem closes_congr {depth depth' : Nat} {text text' : Text}
    (h : scanInside depth text = scanInside depth' text') : Closes depth text ↔ Closes depth' text' := by
  rw [closes_iff, closes_iff, h]

theorem closes_zero_iff (text : Text) :
    Closes 0 text ↔ (readBracket? ('[' :: text)).isSome = true := by
  rw [Closes, BracketCloses, readBracket?]
  cases scanBracket text <;> simp

theorem closes_escape (depth : Nat) (text : Text) :
    Closes depth ('\\' :: text) ↔ Closes depth (readControl text).2 :=
  closes_congr (scanInside_escape depth text)

theorem closes_comment (depth : Nat) (text : Text) :
    Closes depth ('%' :: text) ↔ Closes depth (dropComment text) :=
  closes_congr (scanInside_comment depth text)

theorem closes_cons {c : Char} (h : Inert c) (hright : c ≠ ']') (depth : Nat) (text : Text) :
    Closes depth (c :: text) ↔ Closes depth text :=
  closes_congr (scanInside_cons h hright depth text)

theorem closes_append {word : Text} (h : ∀ c ∈ word, Inert c ∧ c ≠ ']') (depth : Nat)
    (rest : Text) : Closes depth (word ++ rest) ↔ Closes depth rest :=
  closes_congr (scanInside_append h depth rest)

theorem closes_left (depth : Nat) (text : Text) :
    Closes depth ('{' :: text) ↔ Closes (depth + 1) text :=
  closes_congr (scanInside_left depth text)

theorem not_closes_zero_right (text : Text) : ¬ Closes 0 ('}' :: text) := by
  rw [Closes, BracketCloses, scanBracket]
  simp

theorem closes_succ_right (depth : Nat) (text : Text) :
    Closes (depth + 1) ('}' :: text) ↔ Closes depth text :=
  closes_congr (scanInside_right depth text)

theorem closes_zero_rightBracket (text : Text) : Closes 0 (']' :: text) :=
  bracketCloses_right text

theorem closes_succ_rightBracket (depth : Nat) (text : Text) :
    Closes (depth + 1) (']' :: text) ↔ Closes (depth + 1) text :=
  closes_congr (scanInside_rightBracket depth text)

theorem closes_word {name : String} (hne : name ≠ "")
    (hletters : ∀ c ∈ name.toList, c.isAlpha = true) {rest : Text} (hrest : Stops Char.isAlpha rest)
    (depth : Nat) : Closes depth ('\\' :: (name.toList ++ rest)) ↔ Closes depth rest :=
  closes_congr (scanInside_word hne hletters hrest depth)

/-- A group is passed over. -/
theorem closes_group {text rest : Text} (h : closeGroup 1 text = .closed rest) (depth : Nat) :
    Closes depth ('{' :: text) ↔ Closes depth rest :=
  closes_congr (scanInside_group h depth)

theorem closes_blanks {blanks : Text} (h : ∀ c ∈ blanks, isTexBlank c = true) (depth : Nat)
    (rest : Text) : Closes depth (blanks ++ rest) ↔ Closes depth rest :=
  closes_append (fun c hc =>
    ⟨(plain_of_isTexBlank (h c hc)).toInert, (plain_of_isTexBlank (h c hc)).rightBracket⟩) depth rest

/-! ### Where a scan comes -/

/-- A scan that reads control sequences and comments as a whole, and everything else character by
character, comes from the text to `rest`. -/
inductive ComesTo : Text → Text → Prop
  | refl (text : Text) : ComesTo text text
  | control {text rest : Text} (h : ComesTo (readControl text).2 rest) : ComesTo ('\\' :: text) rest
  | comment {text rest : Text} (h : ComesTo (dropComment text) rest) : ComesTo ('%' :: text) rest
  | char {c : Char} {text rest : Text} (hescape : c ≠ '\\') (hcomment : c ≠ '%')
      (h : ComesTo text rest) : ComesTo (c :: text) rest

theorem ComesTo.trans {text mid rest : Text} (h : ComesTo text mid) (h' : ComesTo mid rest) :
    ComesTo text rest := by
  induction h with
  | refl => exact h'
  | control _ ih => exact .control (ih h')
  | comment _ ih => exact .comment (ih h')
  | char hescape hcomment _ ih => exact .char hescape hcomment (ih h')

end Latex

end Marginalia
