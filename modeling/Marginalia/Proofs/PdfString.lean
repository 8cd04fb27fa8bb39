import Marginalia.Latex.PdfString
import Marginalia.Proofs.Scan
import Marginalia.Proofs.Stripping

/-! # Which copies of headings lose their sentinels

The command is searched for from left to right, each time behind the copy found last.  So a text is
taken apart into occurrences, each up to the end of its copy, and a tail (`Parted`), and the copies are
what changes (`stripPdfStrings_parted`).

Not every occurrence is one of these.  One whose command stands in the copy of another is cleared with
it, since the scan that ends the outer copy passes over the inner one, unless it takes the command for a
comment (`comment_or_passes`, `Occurrence.within_or_comment`).  One whose command stands in the heading
of another is jumped over and keeps its sentinels (`not_stripPdfStrings_copy`), and a group that never
closes ends the search.  What is left of a copy may hold a sentinel that was not there before, put
together from parts on both sides of one that was removed.
-/
namespace Marginalia

open Text

namespace Latex

/-! ### Headings and their copies -/

/-- The text begins with a group in braces, and `rest` follows it. -/
def StartsGroup (text rest : Text) : Prop :=
  ∃ body, text = '{' :: body ∧ closeGroup 1 body = .closed rest

/-- Behind the command, a heading in braces and its copy are read, each with the white space before
it, and `rest` follows. -/
structure HasCopy (heading copy rest : Text) : Prop where
  word : Stops Char.isAlpha (heading ++ (copy ++ rest))
  first : ∃ after, StartsGroup (skipBlanks (heading ++ (copy ++ rest))) after ∧
    skipBlanks after = copy ++ rest
  second : StartsGroup (copy ++ rest) rest

/-- Behind the command, there is a group that never closes where the heading or its copy should be. -/
structure Unclosed (text : Text) : Prop where
  word : Stops Char.isAlpha text
  group : ∃ heading, skipBlanks text = '{' :: heading ∧
    ((∃ depth, closeGroup 1 heading = .unclosed depth) ∨
      ∃ after copy depth, closeGroup 1 heading = .closed after ∧ skipBlanks after = '{' :: copy ∧
        closeGroup 1 copy = .unclosed depth)

theorem stops_isAlpha_iff {text : Text} :
    Stops Char.isAlpha text ↔ ¬ text.head?.any Char.isAlpha = true := by
  cases text <;> simp

theorem hasCopy_of_readPdfString {text heading copy rest : Text}
    (h : readPdfString text = .copy heading copy rest) : HasCopy heading copy rest := by
  have htext : heading ++ (copy ++ rest) = text := by
    rw [← List.append_assoc, readPdfString_append h]
  unfold readPdfString at h
  split at h
  · cases h
  · next hword =>
    split at h
    · next title hskip =>
      split at h
      · cases h
      · next after hclose =>
        split at h
        · next body hskip' =>
          split at h
          · cases h
          · next rest hclose' =>
            obtain ⟨-, rfl, rfl⟩ := PdfString.copy.inj h
            have hcopy : upTo ('{' :: body) rest ++ rest = '{' :: body :=
              upTo_append ((closeGroup_suffix hclose').trans (List.suffix_cons _ _))
            refine ⟨?_, ⟨after, ⟨title, ?_, hclose⟩, ?_⟩, ⟨body, hcopy, hclose'⟩⟩
            · rw [htext]
              exact stops_isAlpha_iff.mpr hword
            · rw [htext, hskip]
            · rw [hskip', hcopy]
        · cases h
    · cases h

theorem HasCopy.readPdfString {heading copy rest : Text} (h : HasCopy heading copy rest) :
    readPdfString (heading ++ (copy ++ rest)) = .copy heading copy rest := by
  obtain ⟨after, ⟨title, hskip, hclose⟩, hskip'⟩ := h.first
  obtain ⟨body, hcopy, hclose'⟩ := h.second
  rw [hcopy] at hskip'
  rw [Latex.readPdfString, if_neg (stops_isAlpha_iff.mp h.word)]
  simp only [hskip, hclose, hskip', hclose']
  rw [← hcopy, upTo_append_right, upTo_append_right]

theorem unclosed_of_readPdfString {text : Text} (h : readPdfString text = .unclosed) :
    Unclosed text := by
  unfold readPdfString at h
  split at h
  · cases h
  · next hword =>
    have hstops : Stops Char.isAlpha text := stops_isAlpha_iff.mpr hword
    split at h
    · next heading hskip =>
      split at h
      · next depth hclose => exact ⟨hstops, heading, hskip, .inl ⟨depth, hclose⟩⟩
      · next after hclose =>
        split at h
        · next copy hskip' =>
          split at h
          · next depth hclose' =>
            exact ⟨hstops, heading, hskip, .inr ⟨after, copy, depth, hclose, hskip', hclose'⟩⟩
          · cases h
        · cases h
    · cases h

theorem StartsGroup.closeGroup {text rest : Text} (h : StartsGroup text rest) {depth : Nat}
    (hdepth : 1 ≤ depth) : closeGroup depth text = closeGroup depth rest := by
  obtain ⟨body, rfl, hclose⟩ := h
  rw [Latex.closeGroup, Nat.add_comm, closeGroup_add (Nat.le_refl 1) hdepth hclose]

/-- The scan of a group around a heading and its copy goes on behind them. -/
theorem HasCopy.closeGroup {heading copy rest : Text} (h : HasCopy heading copy rest) {depth : Nat}
    (hdepth : 1 ≤ depth) :
    closeGroup depth (heading ++ (copy ++ rest)) = closeGroup depth rest := by
  obtain ⟨after, hfirst, hskip⟩ := h.first
  rw [← closeGroup_skipBlanks, hfirst.closeGroup hdepth, ← closeGroup_skipBlanks, hskip,
    h.second.closeGroup hdepth]

/-- A copy stands in braces. -/
theorem StartsGroup.exists_eq {copy rest : Text} (h : StartsGroup (copy ++ rest) rest) :
    ∃ inner, copy = '{' :: (inner ++ ['}']) := by
  obtain ⟨body, hbody, hclose⟩ := h
  obtain ⟨inner, rfl⟩ := exists_of_closeGroup hclose
  have hcopy : copy ++ rest = '{' :: (inner ++ ['}']) ++ rest := by simp [hbody]
  exact ⟨inner, List.append_cancel_right hcopy⟩

/-! ### Where the command stands -/

/-- The command is a backslash and letters. -/
theorem exists_pdfStringCommand : ∃ c letters, pdfStringCommand = '\\' :: c :: letters ∧
    ∀ d ∈ c :: letters, d.isAlpha = true :=
  ⟨_, _, rfl, by decide⟩

/-- In a text that begins with the command, it stands at the front or behind that. -/
theorem eq_or_append_of_command {front rest rest' : Text}
    (h : front ++ (pdfStringCommand ++ rest) = pdfStringCommand ++ rest') :
    (front = [] ∧ rest = rest') ∨
      ∃ passed, front = pdfStringCommand ++ passed ∧ rest' = passed ++ (pdfStringCommand ++ rest) := by
  obtain ⟨c, letters, hcommand, hletters⟩ := exists_pdfStringCommand
  rcases List.append_eq_append_iff.mp h with ⟨part, hpart, hrest⟩ | ⟨passed, rfl, hrest⟩
  · cases front with
    | nil => exact .inl ⟨rfl, List.append_cancel_left h⟩
    | cons d front =>
      cases part with
      | nil =>
        rw [List.append_nil] at hpart
        exact .inr ⟨[], by rw [hpart, List.append_nil], hrest.symm⟩
      | cons d' part =>
        -- A backslash would be one of the letters.
        rw [hcommand, List.cons_append] at hpart hrest
        have hmem : d' ∈ c :: letters := by rw [(List.cons.inj hpart).2]; simp
        rw [← (List.cons.inj hrest).1] at hmem
        exact absurd (hletters _ hmem) (by decide)
  · exact .inr ⟨passed, rfl, hrest⟩

/-- A scan passes over the command, also where its backslash is passed over before. -/
theorem closeGroup_command (depth : Nat) (after : Text) :
    closeGroup depth (pdfStringCommand ++ after) = closeGroup depth after ∧
      closeGroup depth ('\\' :: (pdfStringCommand ++ after)) = closeGroup depth after := by
  obtain ⟨c, letters, hcommand, hletters⟩ := exists_pdfStringCommand
  have hinert : ∀ d ∈ c :: letters, Inert d := fun d hd => inert_of_isAlpha (hletters d hd)
  rw [hcommand, List.cons_append, List.cons_append, closeGroup_escape, closeGroup_escape,
    ← List.cons_append]
  exact ⟨closeGroup_append (List.forall_mem_cons.mp hinert).2 after, closeGroup_append hinert after⟩

/-- A group's scan stands in a comment behind the text: what follows is passed over up to the end of
the line. -/
def EndsInComment (depth : Nat) (text : Text) : Prop :=
  ∃ depth', ∀ rest, closeGroup depth (text ++ rest) = closeGroup depth' (dropComment rest)

/-- One step of a group's scan, whatever follows the text: over a control sequence, a comment, a brace
or another character. -/
theorem closeGroup_step {depth : Nat} (hdepth : 1 ≤ depth) (c : Char) (front : Text) :
    c :: front = ['\\'] ∨ EndsInComment depth (c :: front) ∨
      (∀ rest, closeGroup depth (c :: front ++ rest) = .closed (front ++ rest)) ∨
      ∃ depth' front', 1 ≤ depth' ∧ front'.length < (c :: front).length ∧
        ∀ rest, closeGroup depth (c :: front ++ rest) = closeGroup depth' (front' ++ rest) := by
  have hless : front.length < (c :: front).length := Nat.lt_succ_self _
  simp only [List.cons_append]
  by_cases hinert : Inert c
  · exact .inr (.inr (.inr ⟨depth, front, hdepth, hless, fun rest => closeGroup_cons hinert _⟩))
  have hc : c = '\\' ∨ c = '%' ∨ c = '{' ∨ c = '}' := by
    by_contra hnone
    simp only [not_or] at hnone
    exact hinert ⟨hnone.1, hnone.2.2.1, hnone.2.2.2, hnone.2.1⟩
  rcases hc with rfl | rfl | rfl | rfl
  · cases front with
    | nil => exact .inl rfl
    | cons c front =>
      have hless : front.length < ('\\' :: c :: front).length :=
        (Nat.lt_succ_self _).trans (Nat.lt_succ_self _)
      exact .inr (.inr (.inr ⟨depth, front, hdepth, hless, fun rest => closeGroup_escape depth c _⟩))
  · by_cases hends : '\n' ∈ front
    · obtain ⟨line, front, rfl, hline⟩ := List.eq_append_cons_of_mem hends
      refine .inr (.inr (.inr ⟨depth, front, hdepth, ?_, fun rest => ?_⟩))
      · rw [List.length_cons, List.length_append, List.length_cons]
        omega
      rw [List.append_assoc, closeGroup, dropComment_append hline, List.cons_append, dropComment,
        if_pos rfl]
    · refine .inr (.inl ⟨depth, fun rest => ?_⟩)
      rw [List.cons_append, closeGroup, dropComment_append hends]
  · refine .inr (.inr (.inr ⟨depth + 1, front, by omega, hless, fun rest => ?_⟩))
    rw [closeGroup]
  · by_cases hone : depth ≤ 1
    · exact .inr (.inr (.inl fun rest => by rw [closeGroup, if_pos hone]))
    · refine .inr (.inr (.inr ⟨depth - 1, front, by omega, hless, fun rest => ?_⟩))
      rw [closeGroup, if_neg hone]

/-- In a group that closes behind it, the command stands in a comment, or the scan goes on behind
it. -/
theorem comment_or_passes {depth : Nat} (hdepth : 1 ≤ depth) {front after rest : Text}
    (h : closeGroup depth (front ++ (pdfStringCommand ++ after)) = .closed rest)
    (hrest : rest.length < (pdfStringCommand ++ after).length) :
    EndsInComment depth front ∨ ∃ depth', 1 ≤ depth' ∧ closeGroup depth' after = .closed rest := by
  induction hlength : front.length using Nat.strong_induction_on generalizing front depth with
  | _ n ih =>
    subst hlength
    cases front with
    | nil => exact .inr ⟨depth, hdepth, by rw [← h, List.nil_append, (closeGroup_command _ _).1]⟩
    | cons c front =>
      rcases closeGroup_step hdepth c front with hlast | hcomment | hclosed |
        ⟨depth', front', hdepth', hless, hsame⟩
      · rw [hlast, List.singleton_append, (closeGroup_command _ _).2] at h
        exact .inr ⟨depth, hdepth, h⟩
      · exact .inl hcomment
      · rw [hclosed] at h
        have hlength := congrArg List.length (Closing.closed.inj h)
        rw [List.length_append] at hlength
        omega
      · -- The step is the same whatever follows, so a comment in the rest is one in the whole.
        rw [hsame] at h
        refine (ih _ hless hdepth' h rfl).imp_left ?_
        rintro ⟨depth'', hcomment⟩
        exact ⟨depth'', fun rest => by rw [hsame, hcomment]⟩

/-! ### Occurrences -/

/-- The command with a heading and its copy, and the text before it. -/
structure Occurrence where
  before : Text
  heading : Text
  copy : Text

namespace Occurrence

/-- The text up to the copy. -/
def lead (o : Occurrence) : Text :=
  o.before ++ (pdfStringCommand ++ o.heading)

/-- The text up to the end of the copy. -/
def source (o : Occurrence) : Text :=
  o.lead ++ o.copy

/-- The text up to the end of the copy, from which sentinels were removed. -/
def cleared (o : Occurrence) : Text :=
  o.lead ++ stripSentinels o.copy

/-- The occurrence in a text with `front` before it. -/
def behind (front : Text) (o : Occurrence) : Occurrence :=
  { o with before := front ++ o.before }

/-- The text holds the occurrence, and `rest` follows its copy. -/
structure In (o : Occurrence) (text rest : Text) : Prop extends HasCopy o.heading o.copy rest where
  text_eq : text = o.source ++ rest

/-- The copy is a part of the copy of another occurrence, and what it loses is its own. -/
def Within (o other : Occurrence) : Prop :=
  ∃ front back, other.copy = front ++ (o.copy ++ back) ∧ o.lead = other.lead ++ front ∧
    stripSentinels other.copy =
      stripSentinels front ++ (stripSentinels o.copy ++ stripSentinels back)

/-- The command stands in the heading of another occurrence. -/
def InHeading (o other : Occurrence) : Prop :=
  ∃ front back, other.heading = front ++ back ∧ back ≠ [] ∧
    o.before = other.before ++ (pdfStringCommand ++ front)

/-- The command stands in a comment of the copy of another occurrence. -/
def InComment (o other : Occurrence) : Prop :=
  ∃ front back, other.copy = '{' :: (front ++ back) ∧ back ≠ [] ∧ EndsInComment 1 front ∧
    o.before = other.lead ++ '{' :: front

/-- The occurrences of a row, in the text that the row makes up behind `front`. -/
def located (front : Text) : List Occurrence → List Occurrence
  | [] => []
  | o :: row => o.behind front :: located (front ++ o.source) row

variable {o other : Occurrence} {front text rest rest' : Text}

@[simp] theorem lead_behind (front : Text) (o : Occurrence) :
    (o.behind front).lead = front ++ o.lead := by
  simp [lead, behind]

@[simp] theorem source_behind (front : Text) (o : Occurrence) :
    (o.behind front).source = front ++ o.source := by
  rw [source, lead_behind, List.append_assoc]
  rfl

@[simp] theorem cleared_behind (front : Text) (o : Occurrence) :
    (o.behind front).cleared = front ++ o.cleared := by
  rw [cleared, lead_behind, List.append_assoc]
  rfl

@[simp] theorem behind_nil (o : Occurrence) : o.behind [] = o := rfl

@[simp] theorem behind_behind (front front' : Text) (o : Occurrence) :
    (o.behind front).behind front' = o.behind (front' ++ front) := by
  simp [behind]

theorem located_append (front front' : Text) (row : List Occurrence) :
    located (front ++ front') row = (located front' row).map (behind front) := by
  induction row generalizing front' with
  | nil => rfl
  | cons o row ih =>
    rw [located, located, List.map_cons, behind_behind, List.append_assoc, ih]

theorem located_cons (o : Occurrence) (row : List Occurrence) :
    located [] (o :: row) = o :: (located [] row).map (behind o.source) := by
  rw [located, behind_nil, List.nil_append, ← located_append, List.append_nil]

theorem In.behind (h : o.In text rest) (front : Text) : (o.behind front).In (front ++ text) rest :=
  ⟨h.toHasCopy, by rw [source_behind, h.text_eq, List.append_assoc]⟩

theorem Within.behind (h : o.Within other) (front : Text) :
    (o.behind front).Within (other.behind front) := by
  obtain ⟨before, back, hcopy, hlead, hstrip⟩ := h
  exact ⟨before, back, hcopy, by simp [hlead], hstrip⟩

theorem InHeading.behind (h : o.InHeading other) (front : Text) :
    (o.behind front).InHeading (other.behind front) := by
  obtain ⟨before, back, hheading, hback, hbefore⟩ := h
  exact ⟨before, back, hheading, hback, by simp [Occurrence.behind, hbefore]⟩

theorem InComment.behind (h : o.InComment other) (front : Text) :
    (o.behind front).InComment (other.behind front) := by
  obtain ⟨before, back, hcopy, hback, hcomment, hbefore⟩ := h
  refine ⟨before, back, hcopy, hback, hcomment, ?_⟩
  rw [lead_behind, List.append_assoc, ← hbefore]
  rfl

theorem foreign_brace : Foreign '{' ∧ Foreign '}' := by decide

/-- What a copy inside a copy loses is its own. -/
theorem within_of_copy {before back : Text} (ho : StartsGroup (o.copy ++ rest) rest)
    (hcopy : other.copy = before ++ (o.copy ++ back)) (hlead : o.lead = other.lead ++ before) :
    o.Within other := by
  refine ⟨before, back, hcopy, hlead, ?_⟩
  obtain ⟨inner, hinner⟩ := ho.exists_eq
  have hbraces (front back : Text) : stripSentinels (front ++ ('{' :: (inner ++ ['}']) ++ back)) =
      stripSentinels front ++ ('{' :: (stripSentinels inner ++ '}' :: stripSentinels back)) := by
    rw [List.cons_append, List.append_assoc, stripSentinels_append_cons foreign_brace.1,
      List.singleton_append, stripSentinels_append_cons foreign_brace.2]
  have hown := hbraces [] []
  rw [List.nil_append, List.append_nil, stripSentinels_nil, List.nil_append] at hown
  rw [hcopy, hinner, hbraces, hown]
  simp

theorem In.text_eq_append (h : o.In text rest) :
    text = o.before ++ (pdfStringCommand ++ (o.heading ++ (o.copy ++ rest))) := by
  rw [h.text_eq, source, lead]
  simp

theorem head_of_copy {copy : Text} (h : StartsGroup (copy ++ rest) rest) (text : Text) :
    copy ++ rest ≠ pdfStringCommand ++ text := by
  obtain ⟨body, hbody, -⟩ := h
  obtain ⟨c, letters, hcommand, -⟩ := exists_pdfStringCommand
  rw [hbody, hcommand]
  intro heq
  exact absurd (List.cons.inj heq).1 (by decide)

/-- The command in the copy of an occurrence. -/
theorem within_or_comment (hother : StartsGroup (other.copy ++ rest) rest)
    (ho : HasCopy o.heading o.copy rest') {front back : Text} (hcopy : other.copy = front ++ back)
    (hback : back ≠ [])
    (hbegins : back ++ rest = pdfStringCommand ++ (o.heading ++ (o.copy ++ rest')))
    (hbefore : o.before = other.lead ++ front) : o.Within other ∨ o.InComment other := by
  have hwhole : other.copy ++ rest =
      front ++ (pdfStringCommand ++ (o.heading ++ (o.copy ++ rest'))) := by
    rw [hcopy, List.append_assoc, hbegins]
  cases front with
  | nil => exact absurd hwhole (head_of_copy hother _)
  | cons c front =>
    obtain ⟨body, hbody, hclose⟩ := hother
    obtain ⟨rfl, rfl⟩ := List.cons.inj (hbody.symm.trans hwhole)
    have hlength : rest.length <
        (pdfStringCommand ++ (o.heading ++ (o.copy ++ rest'))).length := by
      rw [← hbegins, List.length_append]
      exact Nat.lt_add_of_pos_left (List.length_pos_iff.mpr hback)
    rcases comment_or_passes (Nat.le_refl 1) hclose hlength with hcomment | ⟨depth, hdepth, hpasses⟩
    · exact .inr ⟨front, back, hcopy, hback, hcomment, hbefore⟩
    · rw [ho.closeGroup hdepth] at hpasses
      obtain ⟨passed, rfl⟩ := closeGroup_suffix hpasses
      have hparts : back ++ rest =
          pdfStringCommand ++ (o.heading ++ (o.copy ++ passed)) ++ rest := by simp [hbegins]
      obtain rfl := List.append_cancel_right hparts
      have hlead : o.lead = other.lead ++ ('{' :: front ++ (pdfStringCommand ++ o.heading)) := by
        rw [lead, hbefore, List.append_assoc]
      have hcopy' : other.copy =
          '{' :: front ++ (pdfStringCommand ++ o.heading) ++ (o.copy ++ passed) := by simp [hcopy]
      exact .inl (within_of_copy ho.second hcopy' hlead)

/-- An occurrence behind a front of the text is one of the rest. -/
theorem exists_behind (ho : HasCopy o.heading o.copy rest') {front part : Text}
    (hbefore : o.before = front ++ part)
    (hrest : rest = part ++ (pdfStringCommand ++ (o.heading ++ (o.copy ++ rest')))) :
    ∃ o' : Occurrence, o = o'.behind front ∧ o'.In rest rest' := by
  refine ⟨⟨part, o.heading, o.copy⟩, ?_, ho, ?_⟩
  · rw [behind, ← hbefore]
  · rw [hrest, source, lead]
    simp

theorem In.exists_behind (ho : o.In (front ++ text) rest) (hle : front.length ≤ o.before.length) :
    ∃ o' : Occurrence, o = o'.behind front ∧ o'.In text rest := by
  have heq := ho.text_eq_append
  obtain ⟨part, hpart⟩ : front <+: o.before :=
    List.prefix_of_prefix_length_le ⟨_, heq⟩ (List.prefix_append _ _) hle
  rw [← hpart, List.append_assoc, List.append_right_inj] at heq
  exact Occurrence.exists_behind ho.toHasCopy hpart.symm heq

/-- Where the command is found first, an occurrence is, or all are behind it. -/
theorem In.of_split? {after : Text} (hsplit : split? pdfStringCommand text = some (front, after))
    (ho : o.In text rest) :
    (o.before = front ∧ after = o.heading ++ (o.copy ++ rest)) ∨
      front.length + pdfStringCommand.length ≤ o.before.length := by
  have htext := split?_eq_some hsplit
  have heq := ho.text_eq_append
  obtain ⟨part, hpart⟩ : front <+: o.before := by
    rw [htext, List.append_assoc] at heq
    exact List.prefix_of_prefix_length_le ⟨_, heq⟩ (List.prefix_append _ _)
      (length_le_of_split? hsplit ho.text_eq_append)
  rw [htext, ← hpart, List.append_assoc, List.append_assoc, List.append_right_inj] at heq
  rcases eq_or_append_of_command heq.symm with ⟨rfl, hafter⟩ | ⟨passed, rfl, -⟩
  · exact .inl ⟨by rw [← hpart, List.append_nil], hafter.symm⟩
  · refine .inr ?_
    rw [← hpart]
    simp

/-- An occurrence that does not begin before another one. -/
theorem In.cases (h : other.In text rest) (ho : o.In text rest')
    (hle : other.before.length ≤ o.before.length) :
    o.Within other ∨ o.InHeading other ∨ o.InComment other ∨
      ∃ o' : Occurrence, o = o'.behind other.source ∧ o'.In rest rest' := by
  have heq := h.text_eq_append.symm.trans ho.text_eq_append
  obtain ⟨front, hfront⟩ : other.before <+: o.before :=
    List.prefix_of_prefix_length_le ⟨_, heq⟩ (List.prefix_append _ _) hle
  rw [← hfront, List.append_assoc, List.append_right_inj] at heq
  rcases eq_or_append_of_command heq.symm with ⟨rfl, hbehind⟩ | ⟨passed, rfl, hbehind⟩
  · -- The same occurrence.
    have hread := ho.readPdfString
    rw [hbehind, h.readPdfString] at hread
    obtain ⟨hheading, hcopy, -⟩ := PdfString.copy.inj hread
    have hlead : o.lead = other.lead ++ [] := by
      rw [lead, lead, ← hfront, hheading, List.append_nil, List.append_nil]
    have hcopy' : other.copy = [] ++ (o.copy ++ []) := by rw [hcopy, List.append_nil, List.nil_append]
    exact .inl (within_of_copy ho.second hcopy' hlead)
  rcases List.append_eq_append_iff.mp hbehind with ⟨part, rfl, hcopy⟩ | ⟨part, hheading, hpart⟩
  · -- Behind the heading: in the copy or behind it.
    have hbefore : o.before = other.lead ++ part := by
      rw [← hfront, lead, List.append_assoc, List.append_assoc]
    rcases List.append_eq_append_iff.mp hcopy with ⟨back, rfl, hrest⟩ | ⟨back, hcopy, hbegins⟩
    · rw [← List.append_assoc] at hbefore
      exact .inr (.inr (.inr (Occurrence.exists_behind ho.toHasCopy hbefore hrest)))
    · by_cases hback : back = []
      · rw [hback, List.append_nil] at hcopy
        rw [hback, List.nil_append] at hbegins
        rw [← hcopy, ← List.append_nil (_ ++ _)] at hbefore
        exact .inr (.inr (.inr (Occurrence.exists_behind ho.toHasCopy hbefore hbegins.symm)))
      · have hfound := within_or_comment h.second ho.toHasCopy hcopy hback hbegins.symm hbefore
        exact hfound.imp_right fun hcomment => .inr (.inl hcomment)
  · refine .inr (.inl ⟨passed, part, hheading, ?_, hfront.symm⟩)
    rintro rfl
    exact head_of_copy h.second _ hpart.symm

end Occurrence

/-! ### What is found -/

namespace Occurrence

/-- The copy is cleared with that of an occurrence in the row; or the command stands in the heading or
in a comment of the copy of one, or behind a group of the tail that never closes. -/
def Met (row : List Occurrence) (tail : Text) (o : Occurrence) : Prop :=
  (∃ other ∈ located [] row, o.Within other ∨ o.InHeading other ∨ o.InComment other) ∨
    ∃ before after, tail = before ++ (pdfStringCommand ++ after) ∧ Unclosed after ∧
      row.flatMap source ++ before <+: o.before

theorem Met.behind {row row' : List Occurrence} {tail tail' front : Text} {o : Occurrence}
    (h : o.Met row tail) (hrow : ∀ other ∈ located [] row, other.behind front ∈ located [] row')
    (htail : ∀ before after, tail = before ++ after → ∃ before', tail' = before' ++ after ∧
      row'.flatMap source ++ before' = front ++ (row.flatMap source ++ before)) :
    (o.behind front).Met row' tail' := by
  rcases h with ⟨other, hother, h⟩ | ⟨before, after, hbefore, hafter, hprefix⟩
  · refine .inl ⟨other.behind front, hrow other hother, ?_⟩
    exact h.imp (·.behind front) (Or.imp (·.behind front) (·.behind front))
  · obtain ⟨before', hbefore', heq⟩ := htail before _ hbefore
    refine .inr ⟨before', after, hbefore', hafter, ?_⟩
    rw [heq]
    exact (List.prefix_append_right_inj front).mpr hprefix

end Occurrence

/-- The text is taken apart into occurrences, each up to the end of its copy, and a tail, and all
occurrences are met. -/
structure Parted (text : Text) (row : List Occurrence) (tail : Text) : Prop where
  text_eq : text = row.flatMap Occurrence.source ++ tail
  sound : ∀ o ∈ Occurrence.located [] row, ∃ rest, o.In text rest
  complete : ∀ (o : Occurrence) rest, o.In text rest → o.Met row tail

namespace Parted

open Occurrence

variable {text front after rest tail : Text} {row : List Occurrence} {other : Occurrence}

theorem of_split?_eq_none (h : split? pdfStringCommand text = none) : Parted text [] text where
  text_eq := rfl
  sound := List.forall_mem_nil _
  complete o rest ho := by
    refine absurd ⟨o.before, o.heading ++ (o.copy ++ rest), ?_⟩ (not_infix_of_split? h)
    rw [ho.text_eq_append, List.append_assoc]

theorem of_unclosed (hsplit : split? pdfStringCommand text = some (front, after))
    (h : Unclosed after) : Parted text [] text where
  text_eq := rfl
  sound := List.forall_mem_nil _
  complete o rest ho := by
    have htext := split?_eq_some hsplit
    rw [List.append_assoc] at htext
    have heq := htext.symm.trans ho.text_eq_append
    exact .inr ⟨front, after, htext, h, List.prefix_of_prefix_length_le ⟨_, heq⟩
      (List.prefix_append _ _) (length_le_of_split? hsplit ho.text_eq_append)⟩

/-- The first occurrence, and those behind its copy. -/
theorem cons (h : Parted rest row tail) (hfirst : other.In text rest)
    (hle : ∀ (o : Occurrence) rest', o.In text rest' → other.before.length ≤ o.before.length) :
    Parted text (other :: row) tail where
  text_eq := by rw [hfirst.text_eq, h.text_eq]; simp
  sound := by
    rw [located_cons]
    refine List.forall_mem_cons.mpr ⟨⟨rest, hfirst⟩, List.forall_mem_map.mpr fun o ho => ?_⟩
    obtain ⟨rest', hin⟩ := h.sound o ho
    exact ⟨rest', hfirst.text_eq ▸ hin.behind _⟩
  complete o rest' ho := by
    have hmem : other ∈ located [] (other :: row) := by
      rw [located_cons]
      exact List.mem_cons_self
    rcases hfirst.cases ho (hle o rest' ho) with hin | hin | hin | ⟨o, rfl, hin⟩
    · exact .inl ⟨other, hmem, .inl hin⟩
    · exact .inl ⟨other, hmem, .inr (.inl hin)⟩
    · exact .inl ⟨other, hmem, .inr (.inr hin)⟩
    · refine (h.complete o rest' hin).behind (fun o ho => ?_) fun before after htail => ?_
      · rw [located_cons]
        exact List.mem_cons_of_mem _ (List.mem_map_of_mem ho)
      · exact ⟨before, htail, by simp⟩

/-- A front in which no occurrence begins. -/
theorem skip (h : Parted text row tail)
    (hle : ∀ (o : Occurrence) rest, o.In (front ++ text) rest → front.length ≤ o.before.length) :
    ∃ row' tail', Parted (front ++ text) row' tail' ∧
      row'.flatMap cleared ++ tail' = front ++ (row.flatMap cleared ++ tail) := by
  cases row with
  | nil =>
    refine ⟨[], front ++ tail, ⟨?_, List.forall_mem_nil _, fun o rest ho => ?_⟩, rfl⟩
    · rw [h.text_eq]
      rfl
    · obtain ⟨o, rfl, hin⟩ := ho.exists_behind (hle o rest ho)
      refine (h.complete o rest hin).behind (List.forall_mem_nil _) fun before after htail => ?_
      exact ⟨front ++ before, by rw [htail, List.append_assoc], rfl⟩
  | cons first row =>
    have hlocated : located [] (first.behind front :: row) =
        (located [] (first :: row)).map (behind front) := by
      simp [located_cons]
    refine ⟨first.behind front :: row, tail, ⟨?_, ?_, fun o rest ho => ?_⟩, by simp⟩
    · rw [h.text_eq]
      simp
    · rw [hlocated]
      refine List.forall_mem_map.mpr fun o ho => ?_
      obtain ⟨rest, hin⟩ := h.sound o ho
      exact ⟨rest, hin.behind front⟩
    · obtain ⟨o, rfl, hin⟩ := ho.exists_behind (hle o rest ho)
      refine (h.complete o rest hin).behind (fun o ho => ?_) fun before after htail => ?_
      · rw [hlocated]
        exact List.mem_map_of_mem ho
      · exact ⟨before, htail, by simp⟩

end Parted

/-- Commands are read from left to right, each behind the copy of the one before it. -/
theorem exists_parted {fuel : Nat} {text : Text} (h : text.length < fuel) :
    ∃ row tail, Parted text row tail ∧
      stripPdfStringsFrom fuel text = row.flatMap Occurrence.cleared ++ tail := by
  induction fuel generalizing text with
  | zero => omega
  | succ fuel ih =>
    rw [stripPdfStringsFrom]
    split
    · next hsplit => exact ⟨[], text, .of_split?_eq_none hsplit, rfl⟩
    · next front after hsplit =>
      have htext := split?_eq_some hsplit
      have hlength := congrArg List.length htext
      have hcommand : 0 < pdfStringCommand.length := by decide
      rw [List.length_append, List.length_append] at hlength
      split
      · next heading copy rest hread =>
        have hafter := readPdfString_append hread
        have hrest := congrArg List.length hafter
        rw [List.length_append, List.length_append] at hrest
        obtain ⟨row, tail, hparted, hstrip⟩ := @ih rest (by omega)
        let first : Occurrence := ⟨front, heading, copy⟩
        have hfirst : first.In text rest := by
          refine ⟨hasCopy_of_readPdfString hread, ?_⟩
          rw [htext, ← hafter]
          simp [first, Occurrence.source, Occurrence.lead]
        refine ⟨first :: row, tail, hparted.cons hfirst fun o rest' ho => ?_, ?_⟩
        · exact length_le_of_split? hsplit ho.text_eq_append
        · rw [hstrip]
          simp [first, Occurrence.cleared, Occurrence.lead]
      · next hread =>
        obtain ⟨row, tail, hparted, hstrip⟩ := @ih after (by omega)
        -- The command that was found is no occurrence, and none begins in it.
        have hle : ∀ (o : Occurrence) rest, o.In (front ++ pdfStringCommand ++ after) rest →
            (front ++ pdfStringCommand).length ≤ o.before.length := by
          intro o rest ho
          rw [← htext] at ho
          rcases ho.of_split? hsplit with ⟨-, hafter⟩ | hle
          · rw [hafter, ho.readPdfString] at hread
            cases hread
          · rwa [List.length_append]
        obtain ⟨row', tail', hparted', heq⟩ := hparted.skip hle
        rw [htext, hstrip]
        exact ⟨row', tail', hparted', heq.symm⟩
      · next hread =>
        exact ⟨[], text, .of_unclosed hsplit (unclosed_of_readPdfString hread), rfl⟩

/-- **Plain copies of headings.**  Every copy loses its sentinels and nothing else changes, for all
occurrences of the command but those in the heading or in a comment of the copy of another one, and
behind a group that never closes.  A sentinel in what is left of a copy was cut by one that was
removed. -/
theorem stripPdfStrings_parted (text : Text) : ∃ row tail, Parted text row tail ∧
    stripPdfStrings text = row.flatMap Occurrence.cleared ++ tail ∧
    ∀ (o : Occurrence) rest, o.In text rest → ∀ sentinel : Sentinel, sentinel.Valid →
      sentinel.toText <:+: stripSentinels o.copy →
        ∃ factor, factor <:+: o.copy ∧ factor ≠ sentinel.toText ∧
          stripSentinels factor = sentinel.toText := by
  obtain ⟨row, tail, hparted, hstrip⟩ := exists_parted (Nat.lt_succ_self text.length)
  refine ⟨row, tail, hparted, hstrip, fun o _ _ sentinel hvalid hmem => ?_⟩
  obtain ⟨factor, hfactor, heq⟩ := exists_infix_of_stripSentinels hmem
  refine ⟨factor, hfactor, ?_, heq⟩
  rintro rfl
  have hnil : stripSentinels (sentinel.toText ++ []) = [] := by
    rw [stripSentinels_of_read? (Sentinel.read?_eq_some_iff.mpr ⟨hvalid, rfl⟩), stripSentinels_nil]
  rw [List.append_nil] at hnil
  exact sentinel.toText_ne_nil (heq.symm.trans hnil)

/-- What is left of the copy is a sentinel. -/
example : stripPdfStrings "\\texorpdfstring\x7ba\x7d\x7bHLSTARTHLSTART0ENDHL1ENDHL\x7d".toList =
    "\\texorpdfstring\x7ba\x7d\x7bHLSTART1ENDHL\x7d".toList := by decide +kernel

/-- The copy of an occurrence in the heading of another one keeps its sentinel. -/
theorem not_stripPdfStrings_copy : ¬ ∀ (text : Text) (o : Occurrence) (rest : Text),
    o.In text rest → stripSentinels o.copy <:+: stripPdfStrings text := by
  intro h
  let o : Occurrence := ⟨"\\texorpdfstring\x7b".toList, "\x7ba\x7d".toList,
    "\x7bHLSTART0ENDHL\x7d".toList⟩
  let rest := "\x7d\x7bb\x7d".toList
  have hcopy : HasCopy o.heading o.copy rest := by
    apply hasCopy_of_readPdfString
    show readPdfString (o.heading ++ (o.copy ++ rest)) = _
    decide +kernel
  have hinfix := h (o.source ++ rest) o rest ⟨hcopy, rfl⟩
  revert hinfix
  decide +kernel

end Latex

end Marginalia
