import Marginalia.Latex.Escape
import Marginalia.Proofs.Scan

/-! # Escaped text can be read back

Three of the replacements are control words with an empty group behind them, so escaping puts braces
and backslashes into the text, and letters of the text come to stand behind replacements.  Still
each replacement is read as a whole, whatever stands behind it (`readChar?_eq_some_iff`).  So the
text can be read back, and nothing but escaped text is read (`unescape_eq_some_iff`): two texts are
escaped alike only if they differ in carriage returns, which escaping leaves out.

A scan of escaped text comes from replacement to replacement.  So wherever a character stands in it
that LaTeX gives a meaning, it stands for itself or in the empty group of a glyph (`Defused`,
`escape_faithful`).
-/
namespace Marginalia.Latex

open Text

/-! ### Reading escaped text -/

/-- The characters that are escaped by a backslash. -/
def active : Text :=
  ['{', '}', '$', '&', '#', '%', '_']

/-- The control words that stand for a character, which an empty group keeps apart from what
follows. -/
def glyphs : List (String × Char) :=
  [("textbackslash", '\\'), ("textasciicircum", '^'), ("textasciitilde", '~')]

/-- The character that a control sequence stands for, and what follows; the text begins behind the
backslash. -/
def readEscaped? (text : Text) : Option (Char × Text) :=
  match readControl text with
  | (.symbol c, rest) => if c ∈ active then some (c, rest) else none
  | (.word name, '{' :: '}' :: rest) => (glyphs.lookup name).map (·, rest)
  | _ => none

/-- The first character of an escaped text as it was before, and what follows.  A character that
escaping would not have left alone is refused. -/
def readChar? (c : Char) (text : Text) : Option (Char × Text) :=
  if c = '\\' then readEscaped? text
  else if escapeChar c = [c] then some (c, text)
  else none

theorem readEscaped?_length {text rest : Text} {d : Char} (h : readEscaped? text = some (d, rest)) :
    rest.length ≤ text.length := by
  have hsuffix := (readControl_suffix text).length_le
  unfold readEscaped? at h
  split at h
  · next c after hread =>
    rw [hread] at hsuffix
    obtain ⟨-, -, rfl⟩ : c ∈ active ∧ c = d ∧ after = rest := by simpa using h
    exact hsuffix
  · next name after hread =>
    rw [hread] at hsuffix
    obtain ⟨e, -, heq⟩ := Option.map_eq_some_iff.mp h
    obtain ⟨-, rfl⟩ := Prod.mk.inj heq
    simp only [List.length_cons] at hsuffix
    omega
  · cases h

theorem readChar?_length {c d : Char} {text rest : Text} (h : readChar? c text = some (d, rest)) :
    rest.length ≤ text.length := by
  unfold readChar? at h
  split at h
  · exact readEscaped?_length h
  · split at h
    · obtain ⟨-, rfl⟩ := Prod.mk.inj (Option.some.inj h)
      exact Nat.le_refl _
    · cases h

/-- The text that was escaped, if the text is escaped text. -/
def unescape (text : Text) : Option Text :=
  match text with
  | [] => some []
  | c :: text =>
    match _h : readChar? c text with
    | some (d, rest) => (unescape rest).map (d :: ·)
    | none => none
termination_by text.length
decreasing_by exact Nat.lt_succ_of_le (readChar?_length _h)

theorem unescape_cons {c d : Char} {text rest : Text} (h : readChar? c text = some (d, rest)) :
    unescape (c :: text) = (unescape rest).map (d :: ·) := by
  rw [unescape]
  split
  · next d' rest' heq =>
    obtain ⟨rfl, rfl⟩ := Prod.mk.inj (Option.some.inj (heq.symm.trans h))
    rfl
  · next hnone =>
    rw [hnone] at h
    cases h

/-! ### Replacements -/

theorem letters_of_mem_glyphs {name : String} {c : Char} (h : (name, c) ∈ glyphs) :
    name ≠ "" ∧ ∀ d ∈ name.toList, d.isAlpha = true := by
  simp only [glyphs, List.mem_cons, Prod.mk.injEq, List.not_mem_nil, or_false] at h
  rcases h with ⟨rfl, -⟩ | ⟨rfl, -⟩ | ⟨rfl, -⟩ <;> exact ⟨by decide, by decide⟩

theorem lookup_glyphs_iff {name : String} {c : Char} :
    glyphs.lookup name = some c ↔ (name, c) ∈ glyphs := by
  simp only [glyphs, List.lookup_cons, List.lookup_nil, List.mem_cons, Prod.mk.injEq,
    List.not_mem_nil, or_false]
  by_cases hbackslash : name = "textbackslash"
  · subst hbackslash
    simp [eq_comm]
  by_cases hcircum : name = "textasciicircum"
  · subst hcircum
    simp [eq_comm]
  by_cases htilde : name = "textasciitilde"
  · subst htilde
    simp [eq_comm]
  · simp [hbackslash, hcircum, htilde, beq_eq_false_iff_ne.mpr]

/-- What a character becomes: a glyph's word and an empty group, a control symbol, nothing, or
itself. -/
theorem escapeChar_cases (c : Char) :
    (∃ name, (name, c) ∈ glyphs ∧ escapeChar c = '\\' :: (name.toList ++ ['{', '}'])) ∨
    (c ∈ active ∧ escapeChar c = ['\\', c]) ∨
    (c = '\r' ∧ escapeChar c = []) ∨
    (c ≠ '\\' ∧ c ∉ active ∧ c ≠ '^' ∧ c ≠ '~' ∧ c ≠ '\r' ∧ escapeChar c = [c]) := by
  by_cases hbackslash : c = '\\'
  · subst hbackslash
    exact .inl ⟨"textbackslash", by decide, rfl⟩
  by_cases hactive : c ∈ active
  · refine .inr (.inl ⟨hactive, ?_⟩)
    simp only [active, List.mem_cons, List.not_mem_nil, or_false] at hactive
    rcases hactive with rfl | rfl | rfl | rfl | rfl | rfl | rfl <;> rfl
  by_cases hcircum : c = '^'
  · subst hcircum
    exact .inl ⟨"textasciicircum", by decide, rfl⟩
  by_cases htilde : c = '~'
  · subst htilde
    exact .inl ⟨"textasciitilde", by decide, rfl⟩
  by_cases hreturn : c = '\r'
  · subst hreturn
    exact .inr (.inr (.inl ⟨rfl, rfl⟩))
  · refine .inr (.inr (.inr ⟨hbackslash, hactive, hcircum, htilde, hreturn, ?_⟩))
    simp only [active, List.mem_cons, List.not_mem_nil, or_false, not_or] at hactive
    simp [escapeChar, hbackslash, hactive, hcircum, htilde, hreturn]

theorem isAlpha_of_mem_active {c : Char} (h : c ∈ active) : c.isAlpha = false := by
  simp only [active, List.mem_cons, List.not_mem_nil, or_false] at h
  rcases h with rfl | rfl | rfl | rfl | rfl | rfl | rfl <;> decide

theorem readControl_active {c : Char} (h : c ∈ active) (rest : Text) :
    readControl (c :: rest) = (.symbol c, rest) := by
  rw [readControl, if_neg (by simp [isAlpha_of_mem_active h])]

theorem readControl_glyph {name : String} {c : Char} (h : (name, c) ∈ glyphs) (rest : Text) :
    readControl (name.toList ++ '{' :: rest) = (.word name, '{' :: rest) := by
  obtain ⟨hne, hletters⟩ := letters_of_mem_glyphs h
  exact readControl_word hne hletters (stops_cons.mpr (by decide))

theorem readEscaped?_glyph {name : String} {c : Char} (h : (name, c) ∈ glyphs) (rest : Text) :
    readEscaped? (name.toList ++ '{' :: '}' :: rest) = some (c, rest) := by
  have hlookup := lookup_glyphs_iff.mpr h
  rw [readEscaped?, readControl_glyph h]
  simp only [hlookup, Option.map_some]

theorem readEscaped?_active {c : Char} (h : c ∈ active) (rest : Text) :
    readEscaped? (c :: rest) = some (c, rest) := by
  rw [readEscaped?, readControl_active h]
  exact if_pos h

/-- What is read behind a backslash is the rest of a replacement. -/
theorem eq_of_readEscaped? {d : Char} {text rest : Text} (h : readEscaped? text = some (d, rest)) :
    '\\' :: text = escapeChar d ++ rest ∧ d ≠ '\r' := by
  unfold readEscaped? at h
  split at h
  · next e after hread =>
    -- A control symbol of an active character.
    obtain ⟨hactive, rfl, rfl⟩ : e ∈ active ∧ e = d ∧ after = rest := by simpa using h
    rcases readControl_cases text with ⟨_, _, hword, -⟩ | ⟨f, _, hsymbol, rfl, -⟩ | ⟨hbare, -⟩
    · cases hword.symm.trans hread
    · cases hsymbol.symm.trans hread
      rcases escapeChar_cases e with ⟨name, hglyph, -⟩ | ⟨-, heq⟩ | ⟨rfl, -⟩ | ⟨-, hnot, -⟩
      · simp only [glyphs, List.mem_cons, Prod.mk.injEq, List.not_mem_nil, or_false] at hglyph
        rcases hglyph with ⟨-, rfl⟩ | ⟨-, rfl⟩ | ⟨-, rfl⟩ <;> exact absurd hactive (by decide)
      · refine ⟨by rw [heq]; rfl, ?_⟩
        rintro rfl
        exact absurd hactive (by decide)
      · exact absurd hactive (by decide)
      · exact absurd hactive hnot
    · cases hbare.symm.trans hread
  · next name after hread =>
    -- The control word of a glyph and its empty group.
    obtain ⟨e, hlookup, heq⟩ := Option.map_eq_some_iff.mp h
    obtain ⟨rfl, rfl⟩ := Prod.mk.inj heq
    have hglyph := lookup_glyphs_iff.mp hlookup
    rcases readControl_cases text with ⟨_, _, hword, rfl, -⟩ | ⟨_, _, hsymbol, -⟩ | ⟨hbare, -⟩
    · cases hword.symm.trans hread
      simp only [glyphs, List.mem_cons, Prod.mk.injEq, List.not_mem_nil, or_false] at hglyph
      rcases hglyph with ⟨rfl, rfl⟩ | ⟨rfl, rfl⟩ | ⟨rfl, rfl⟩ <;> exact ⟨rfl, by decide⟩
    · cases hsymbol.symm.trans hread
    · cases hbare.symm.trans hread
  · cases h

/-- **A replacement is read as the character it replaces**, whatever follows it, and nothing else is
read. -/
theorem readChar?_eq_some_iff {c d : Char} {text rest : Text} :
    readChar? c text = some (d, rest) ↔ c :: text = escapeChar d ++ rest ∧ d ≠ '\r' := by
  constructor
  · intro h
    unfold readChar? at h
    by_cases hescape : c = '\\'
    · rw [if_pos hescape] at h
      exact hescape ▸ eq_of_readEscaped? h
    · rw [if_neg hescape] at h
      split at h
      · next hself =>
        obtain ⟨rfl, rfl⟩ := Prod.mk.inj (Option.some.inj h)
        refine ⟨by rw [hself]; rfl, ?_⟩
        rintro rfl
        cases hself
      · cases h
  · rintro ⟨htext, hreturn⟩
    rcases escapeChar_cases d with ⟨name, hglyph, heq⟩ | ⟨hactive, heq⟩ | ⟨rfl, -⟩ |
      ⟨hescape, -, -, -, -, heq⟩
    · rw [heq, List.cons_append, List.append_assoc] at htext
      obtain ⟨rfl, rfl⟩ := List.cons.inj htext
      rw [readChar?, if_pos rfl]
      exact readEscaped?_glyph hglyph rest
    · rw [heq] at htext
      obtain ⟨rfl, rfl⟩ := List.cons.inj htext
      rw [readChar?, if_pos rfl]
      exact readEscaped?_active hactive rest
    · exact absurd rfl hreturn
    · rw [heq] at htext
      obtain ⟨rfl, rfl⟩ := List.cons.inj htext
      rw [readChar?, if_neg hescape, if_pos heq]

/-! ### Escaping and back -/

/-- A text without its carriage returns. -/
def withoutReturns (text : Text) : Text :=
  text.filter (· != '\r')

theorem not_mem_withoutReturns (text : Text) : '\r' ∉ withoutReturns text := by
  simp [withoutReturns]

theorem escape_withoutReturns (text : Text) : escape (withoutReturns text) = escape text := by
  induction text with
  | nil => rfl
  | cons c text ih =>
    by_cases hc : c = '\r'
    · subst hc
      exact ih
    · rw [withoutReturns, List.filter_cons_of_pos (by simpa using hc), escape_cons, escape_cons]
      exact congrArg (escapeChar c ++ ·) ih

theorem unescape_append {d : Char} (hd : d ≠ '\r') (rest : Text) :
    unescape (escapeChar d ++ rest) = (unescape rest).map (d :: ·) := by
  cases htext : escapeChar d ++ rest with
  | nil =>
    obtain ⟨hnil, -⟩ := List.append_eq_nil_iff.mp htext
    rcases escapeChar_cases d with ⟨_, -, heq⟩ | ⟨-, heq⟩ | ⟨rfl, -⟩ | ⟨-, -, -, -, -, heq⟩
    · cases heq.symm.trans hnil
    · cases heq.symm.trans hnil
    · exact absurd rfl hd
    · cases heq.symm.trans hnil
  | cons c text => exact unescape_cons (readChar?_eq_some_iff.mpr ⟨htext.symm, hd⟩)

/-- **Escaped text, and no other text, is read back**, as the text that was escaped. -/
theorem unescape_eq_some_iff {source text : Text} :
    unescape source = some text ↔ source = escape text ∧ '\r' ∉ text := by
  constructor
  · intro h
    fun_induction unescape source generalizing text with
    | case1 =>
      obtain rfl := Option.some.inj h
      exact ⟨rfl, List.not_mem_nil⟩
    | case2 c source d rest hread ih =>
      obtain ⟨tail, htail, rfl⟩ := Option.map_eq_some_iff.mp h
      obtain ⟨hsource, hd⟩ := readChar?_eq_some_iff.mp hread
      obtain ⟨rfl, hreturns⟩ := ih htail
      exact ⟨hsource, by simp [Ne.symm hd, hreturns]⟩
    | case3 => cases h
  · rintro ⟨rfl, hreturns⟩
    induction text with
    | nil => rw [escape_nil, unescape]
    | cons c text ih =>
      rw [List.mem_cons, not_or] at hreturns
      rw [escape_cons, unescape_append (Ne.symm hreturns.1), ih hreturns.2, Option.map_some]

theorem unescape_escape (text : Text) : unescape (escape text) = some (withoutReturns text) :=
  unescape_eq_some_iff.mpr ⟨(escape_withoutReturns text).symm, not_mem_withoutReturns text⟩

/-! ### Characters with a meaning -/

/-- In the text, what stands at the front of the given end of it is read for itself: it is the
character of a control symbol, or a brace of the empty group behind the word of a glyph. -/
inductive Defused (text : Text) : Text → Prop
  | symbol {c : Char} {rest : Text} (hcomes : ComesTo text ('\\' :: c :: rest))
      (hread : readControl (c :: rest) = (.symbol c, rest)) : Defused text (c :: rest)
  | opening {name : String} {d : Char} {tail rest : Text} (hglyph : (name, d) ∈ glyphs)
      (hcomes : ComesTo text ('\\' :: tail))
      (hread : readControl tail = (.word name, '{' :: '}' :: rest)) :
      Defused text ('{' :: '}' :: rest)
  | closing {name : String} {d : Char} {tail rest : Text} (hglyph : (name, d) ∈ glyphs)
      (hcomes : ComesTo text ('\\' :: tail))
      (hread : readControl tail = (.word name, '{' :: '}' :: rest)) : Defused text ('}' :: rest)

theorem Defused.of_comesTo {text mid rest : Text} (h : ComesTo text mid) (hmid : Defused mid rest) :
    Defused text rest := by
  cases hmid with
  | symbol hcomes hread => exact .symbol (h.trans hcomes) hread
  | opening hglyph hcomes hread => exact .opening hglyph (h.trans hcomes) hread
  | closing hglyph hcomes hread => exact .closing hglyph (h.trans hcomes) hread

/-- A scan passes over a replacement. -/
theorem comesTo_escapeChar (c : Char) (rest : Text) : ComesTo (escapeChar c ++ rest) rest := by
  rcases escapeChar_cases c with ⟨name, hglyph, heq⟩ | ⟨hactive, heq⟩ | ⟨-, heq⟩ |
    ⟨hescape, hactive, -, -, -, heq⟩
  · rw [heq, List.cons_append, List.append_assoc]
    refine .control ?_
    rw [List.cons_append, readControl_glyph hglyph]
    exact .char (by decide) (by decide) (.char (by decide) (by decide) (.refl rest))
  · have hread : readControl (c :: rest) = (.symbol c, rest) := readControl_active hactive rest
    rw [heq]
    refine .control ?_
    dsimp only [List.append_eq, List.cons_append, List.nil_append]
    rw [hread]
    exact .refl rest
  · rw [heq]
    exact .refl rest
  · rw [heq]
    refine .char hescape ?_ (.refl rest)
    rintro rfl
    exact hactive (by decide)

/-- In a glyph only the braces of the empty group are active. -/
theorem defused_glyph {name : String} {c d : Char} {front back : Text} (hglyph : (name, d) ∈ glyphs)
    (hc : c ∈ active) (h : '\\' :: (name.toList ++ ['{', '}']) = front ++ c :: back) (rest : Text) :
    Defused ('\\' :: (name.toList ++ '{' :: '}' :: rest)) (c :: (back ++ rest)) := by
  have hcomes := ComesTo.refl ('\\' :: (name.toList ++ '{' :: '}' :: rest))
  have hread := readControl_glyph hglyph ('}' :: rest)
  cases front with
  | nil =>
    obtain ⟨rfl, -⟩ := List.cons.inj h
    exact absurd hc (by decide)
  | cons e front =>
    obtain ⟨-, htail⟩ := List.cons.inj h
    rcases List.append_eq_append_iff.mp htail with ⟨letters, rfl, hgroup⟩ | ⟨letters, hname, hgroup⟩
    · cases letters with
      | nil =>
        obtain ⟨rfl, rfl⟩ := List.cons.inj hgroup
        exact .opening hglyph hcomes hread
      | cons f letters =>
        cases letters with
        | nil =>
          obtain ⟨-, hbrace⟩ := List.cons.inj hgroup
          obtain ⟨rfl, rfl⟩ := List.cons.inj hbrace
          exact .closing hglyph hcomes hread
        | cons g letters =>
          have hlength := congrArg List.length hgroup
          simp at hlength
    · cases letters with
      | nil =>
        obtain ⟨rfl, rfl⟩ := List.cons.inj hgroup
        exact .opening hglyph hcomes hread
      | cons f letters =>
        -- A letter of the word is not active.
        obtain ⟨rfl, -⟩ := List.cons.inj hgroup
        have hletter := (letters_of_mem_glyphs hglyph).2 c (hname ▸ by simp)
        rw [isAlpha_of_mem_active hc] at hletter
        cases hletter

/-- An active character in a replacement does nothing. -/
theorem defused_escapeChar {c d : Char} {front back : Text} (hc : c ∈ active)
    (h : escapeChar d = front ++ c :: back) (rest : Text) :
    Defused (escapeChar d ++ rest) (c :: (back ++ rest)) := by
  rcases escapeChar_cases d with ⟨name, hglyph, heq⟩ | ⟨hactive, heq⟩ | ⟨-, heq⟩ |
    ⟨-, hactive, -, -, -, heq⟩
  · rw [heq] at h
    rw [heq, List.cons_append, List.append_assoc]
    exact defused_glyph hglyph hc h rest
  · rw [heq] at h ⊢
    cases front with
    | nil =>
      obtain ⟨rfl, -⟩ := List.cons.inj h
      exact absurd hc (by decide)
    | cons e front =>
      obtain ⟨-, htail⟩ := List.cons.inj h
      cases front with
      | nil =>
        obtain ⟨rfl, rfl⟩ := List.cons.inj htail
        exact .symbol (.refl _) (readControl_active hactive rest)
      | cons f front =>
        have hlength := congrArg List.length htail
        simp at hlength
  · rw [heq] at h
    exact absurd (congrArg List.length h) (by simp)
  · rw [heq] at h
    have hmem : c ∈ [d] := h ▸ List.mem_append_right front List.mem_cons_self
    exact absurd (List.mem_singleton.mp hmem ▸ hc) hactive

/-- The active characters of escaped text do nothing. -/
theorem defused_escape {text rest : Text} {c : Char} (hc : c ∈ active)
    (h : c :: rest <:+ escape text) : Defused (escape text) (c :: rest) := by
  induction text with
  | nil => cases List.suffix_nil.mp h
  | cons d text ih =>
    rw [escape_cons] at h ⊢
    obtain ⟨front, hfront⟩ := h
    rcases List.append_eq_append_iff.mp hfront with ⟨back, hchar, hrest⟩ | ⟨passed, -, hrest⟩
    · cases back with
      | nil =>
        refine .of_comesTo (comesTo_escapeChar d _) (ih ?_)
        exact ⟨[], hrest⟩
      | cons e back =>
        obtain ⟨rfl, rfl⟩ := List.cons.inj hrest
        exact defused_escapeChar hc hchar (escape text)
    · exact .of_comesTo (comesTo_escapeChar d _) (ih ⟨passed, hrest.symm⟩)

/-- The characters for spaces that do not break and for superscripts do not come back. -/
theorem not_mem_escape {c : Char} (hc : c ∈ ['^', '~']) (text : Text) : c ∉ escape text := by
  intro hmem
  obtain ⟨d, -, hd⟩ := List.mem_flatMap.mp hmem
  have hletter : c.isAlpha = false ∧ c ∉ active ∧ c ≠ '\\' := by
    simp only [List.mem_cons, List.not_mem_nil, or_false] at hc
    rcases hc with rfl | rfl <;> decide
  rcases escapeChar_cases d with ⟨name, hglyph, heq⟩ | ⟨hactive, heq⟩ | ⟨-, heq⟩ |
    ⟨-, -, hcircum, htilde, -, heq⟩
  · rw [heq, List.mem_cons, List.mem_append] at hd
    rcases hd with rfl | hname | hgroup
    · exact hletter.2.2 rfl
    · have halpha := (letters_of_mem_glyphs hglyph).2 c hname
      rw [hletter.1] at halpha
      cases halpha
    · refine hletter.2.1 (List.mem_append_left ['$', '&', '#', '%', '_'] hgroup)
  · rw [heq, List.mem_cons, List.mem_singleton] at hd
    rcases hd with rfl | rfl
    · exact hletter.2.2 rfl
    · exact hletter.2.1 hactive
  · rw [heq] at hd
    cases hd
  · rw [heq, List.mem_singleton] at hd
    subst hd
    simp only [List.mem_cons, List.not_mem_nil, or_false] at hc
    exact hc.elim hcircum htilde

/-- **Escaping is faithful and leaves nothing active.**  Reading escaped text back gives the text
without its carriage returns, so two texts that are escaped alike differ in these at most.  Each of
the characters that LaTeX gives a meaning stands in escaped text for itself, behind a backslash that
begins a control symbol, or in the empty group behind the word of a glyph; two of them do not stand
there at all. -/
theorem escape_faithful (text : Text) :
    unescape (escape text) = some (withoutReturns text) ∧
    (∀ other, escape other = escape text ↔ withoutReturns other = withoutReturns text) ∧
    (∀ c rest, c ∈ active → c :: rest <:+ escape text → Defused (escape text) (c :: rest)) ∧
    '^' ∉ escape text ∧ '~' ∉ escape text := by
  refine ⟨unescape_escape text, fun other => ⟨fun heq => ?_, fun heq => ?_⟩,
    fun c rest hc h => defused_escape hc h, not_mem_escape (by decide) text,
    not_mem_escape (by decide) text⟩
  · have hread := unescape_escape other
    rw [heq, unescape_escape text] at hread
    exact (Option.some.inj hread).symm
  · rw [← escape_withoutReturns other, heq, escape_withoutReturns]

/-- A backslash, a letter behind it, a brace and a per cent sign, with a carriage return among them:
the text comes back, the brace is the character of a control symbol, and the first brace of the
result opens the group of a glyph. -/
theorem escape_faithful_mixed :
    unescape (escape "\\a\x7b\r~%".toList) = some "\\a\x7b~%".toList ∧
    Defused (escape "\\a\x7b\r~%".toList) "\x7b\\textasciitilde\x7b\x7d\\%".toList ∧
    Defused (escape "\\a\x7b\r~%".toList)
      "\x7b\x7da\\\x7b\\textasciitilde\x7b\x7d\\%".toList := by
  obtain ⟨hread, -, hdefused, -, -⟩ := escape_faithful "\\a\x7b\r~%".toList
  refine ⟨hread.trans (by decide), hdefused _ _ (by decide) ?_, hdefused _ _ (by decide) ?_⟩
  · exact ⟨"\\textbackslash\x7b\x7da\\".toList, by decide⟩
  · exact ⟨"\\textbackslash".toList, by decide⟩

end Marginalia.Latex
