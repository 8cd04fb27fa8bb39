import Marginalia.Proofs.Placement
import Marginalia.Proofs.Stripping

/-! # Sentinels that the text completes

Taking out the sentinels gives back the text that they were put into, unless the text holds a sentinel
that lacks its last two letters, `HL`, and the end of a highlight is put right behind it
(`Injection.stripSentinels_inject_iff`).  These are the letters with which starts and ends of highlights
begin.  So the text and they make up a sentinel that is not meant, and the rest of the one that is meant
is left over (`Injection.not_stripSentinels_inject`).

No other two words of sentinels overlap (`eq_of_straddles`).  An anchor begins with other letters, and the
start of a highlight stands behind its anchor, so only the ends of highlights are in question, and only
the text from the sentinel before them on (`Apart`).  The bytes where sentinels stand are gone through in
ascending order (`apart_strands`).
-/
namespace Marginalia

open Text Sentinel Markup
open Token (literals literals_mark literals_text)

namespace Sentinel

/-- A sentinel without its last two letters, if these are `HL`. -/
def Severed (word : Text) : Prop :=
  ∃ sentinel : Sentinel, sentinel.Valid ∧ word ++ "HL".toList = sentinel.toText

/-- The text ends with a sentinel that lacks its last two letters. -/
def EndsSevered (text : Text) : Prop :=
  ∃ word, word <:+ text ∧ Severed word

variable {word front rest : Text} {kind : Kind} {sentinel : Sentinel} {i : Nat}

theorem Severed.ne_nil (h : Severed word) : word ≠ [] := by
  rintro rfl
  obtain ⟨sentinel, -, hword⟩ := h
  have hlength := congrArg List.length hword
  have hopening : 5 ≤ sentinel.kind.opening.length := by cases sentinel.kind <;> decide
  simp only [Sentinel.toText, List.length_append] at hlength
  simp at hlength
  omega

theorem not_endsSevered_nil : ¬ EndsSevered [] := by
  rintro ⟨word, hword, hsevered⟩
  exact hsevered.ne_nil (List.suffix_nil.mp hword)

theorem endsSevered_cons {c : Char} :
    EndsSevered (c :: front) ↔ Severed (c :: front) ∨ EndsSevered front := by
  constructor
  · rintro ⟨word, hword, hsevered⟩
    rcases List.suffix_cons_iff.mp hword with rfl | hword
    · exact .inl hsevered
    · exact .inr ⟨word, hword, hsevered⟩
  · rintro (hsevered | ⟨word, hword, hsevered⟩)
    · exact ⟨_, List.suffix_rfl, hsevered⟩
    · exact ⟨word, hword.trans (List.suffix_cons c front), hsevered⟩

/-- Of two fronts of a text, one is a front of the other. -/
theorem isPrefixOf_or_isPrefixOf {part : Text} (h : part <+: word ++ rest) :
    part.isPrefixOf word ∨ word.isPrefixOf part := by
  rw [List.isPrefixOf_iff_prefix, List.isPrefixOf_iff_prefix]
  exact List.prefix_or_prefix_of_prefix h (List.prefix_append word rest)

/-- No opening word begins inside of an opening word. -/
theorem not_prefix_of_opening {k : Kind} {part : Text} (hk : k.opening = front ++ part)
    (hfront : front ≠ []) (hpart : part ≠ []) : ¬ part <+: kind.opening ++ rest := by
  intro h
  have hlength := congrArg List.length hk
  have hpos := List.length_pos_iff.mpr hpart
  rw [List.length_append] at hlength
  have hover := opening_no_overlap k kind front.length (List.length_pos_iff.mpr hfront) (by omega)
  rw [hk, List.drop_left] at hover
  rcases isPrefixOf_or_isPrefixOf h with hover' | hover'
  · exact hover.1 hover'
  · exact hover.2 hover'

/-- No opening word begins with a digit. -/
theorem not_prefix_of_digit {c : Char} {part : Text} (hc : isDecimalDigit c = true) :
    ¬ c :: part <+: kind.opening ++ rest := by
  obtain ⟨d, opening, hopening, hd⟩ : ∃ d opening, kind.opening = d :: opening ∧
      isDecimalDigit d = false := by
    cases kind <;> exact ⟨_, _, rfl, by decide⟩
  rw [hopening]
  intro h
  obtain ⟨rfl, -⟩ := List.cons_prefix_cons.mp h
  rw [hd] at hc
  cases hc

/-- An opening word begins inside of a closing word only with the last two letters of that. -/
theorem eq_of_closing {k : Kind} {part : Text} (hk : k.closing = front ++ part) (hpart : part ≠ [])
    (h : part <+: kind.opening ++ rest) : kind ≠ .anchor ∧ part = "HL".toList := by
  have key : ∀ n : Fin 9, k.closing.drop n.val ≠ [] →
      (k.closing.drop n.val).isPrefixOf kind.opening ∨
        kind.opening.isPrefixOf (k.closing.drop n.val) →
      kind ≠ .anchor ∧ k.closing.drop n.val = "HL".toList := by
    cases k <;> cases kind <;> decide
  have hlt : front.length < 9 := by
    have hle : k.closing.length ≤ 9 := by cases k <;> decide
    have hlength := congrArg List.length hk
    have hpos := List.length_pos_iff.mpr hpart
    rw [List.length_append] at hlength
    omega
  have hdrop := key ⟨front.length, hlt⟩
  rw [hk, List.drop_left] at hdrop
  exact hdrop hpart (isPrefixOf_or_isPrefixOf h)

/-- A sentinel that begins before an opening word and goes over into it ends with its first two
letters. -/
theorem eq_of_straddles {tail : Text} (hvalid : sentinel.Valid) (hfront : front ≠ [])
    (htail : tail ≠ []) (hword : front ++ tail = sentinel.toText)
    (h : tail <+: kind.opening ++ rest) : kind ≠ .anchor ∧ tail = "HL".toList := by
  rw [Sentinel.toText, List.append_assoc] at hword
  -- It goes over with letters of its opening word, with a digit, or with letters of its closing word.
  rcases List.append_eq_append_iff.mp hword with ⟨part, hopening, rfl⟩ | ⟨digits, rfl, hrest⟩
  · cases part with
    | nil =>
      obtain ⟨c, digits, hdigits⟩ : ∃ c digits, sentinel.digits = c :: digits :=
        List.exists_cons_of_length_pos hvalid.pos
      have hc := hvalid.digits c (by simp [hdigits])
      rw [hdigits] at h
      exact absurd h (not_prefix_of_digit hc)
    | cons c part =>
      refine absurd ((List.prefix_append _ _).trans h) ?_
      exact not_prefix_of_opening hopening hfront (List.cons_ne_nil c part)
  · rcases List.append_eq_append_iff.mp hrest with ⟨part, rfl, hclosing⟩ | ⟨part, hdigits, rfl⟩
    · exact eq_of_closing hclosing htail h
    · cases part with
      | nil =>
        have hclosing : sentinel.kind.closing = [] ++ sentinel.kind.closing := rfl
        exact eq_of_closing hclosing htail h
      | cons c part =>
        have hc := hvalid.digits c (by simp [hdigits])
        exact absurd h (not_prefix_of_digit hc)

theorem toText_ofIndex (kind : Kind) (i : Nat) (rest : Text) :
    (ofIndex kind i).toText ++ rest = kind.opening ++ (decimal i ++ (kind.closing ++ rest)) := by
  simp only [Sentinel.toText, ofIndex, List.append_assoc]

/-- Sentinels begin with two letters only. -/
theorem exists_toText_eq (sentinel : Sentinel) :
    ∃ c tail, sentinel.toText = c :: tail ∧ (c = 'H' ∨ c = 'A') := by
  obtain ⟨kind, digits⟩ := sentinel
  cases kind with
  | start => exact ⟨'H', _, rfl, .inl rfl⟩
  | stop => exact ⟨'H', _, rfl, .inl rfl⟩
  | anchor => exact ⟨'A', _, rfl, .inr rfl⟩

/-- The opening word of a start or an end goes on with a letter that no sentinel begins with. -/
theorem exists_opening_eq (h : kind ≠ .anchor) :
    ∃ c tail, kind.opening = "HL".toList ++ c :: tail ∧ c ≠ 'H' ∧ c ≠ 'A' := by
  cases kind with
  | start => exact ⟨'S', _, rfl, by decide, by decide⟩
  | stop => exact ⟨'E', _, rfl, by decide, by decide⟩
  | anchor => exact absurd rfl h

/-- A sentinel found across the end of a text without any. -/
theorem Plain.exists_tail {back : Text} (hplain : Plain front) (hvalid : sentinel.Valid)
    (h : sentinel.toText <+: front ++ back) :
    ∃ tail, tail ≠ [] ∧ front ++ tail = sentinel.toText ∧ tail <+: back := by
  rcases List.prefix_or_prefix_of_prefix h (List.prefix_append front back) with hs | ⟨tail, htail⟩
  · exact absurd hs.isInfix (hplain sentinel hvalid)
  · rw [← htail, List.prefix_append_right_inj] at h
    refine ⟨tail, ?_, htail, h⟩
    rintro rfl
    rw [List.append_nil] at htail
    exact hplain sentinel hvalid (htail ▸ List.infix_rfl)

/-- No sentinel begins before one that was put there, unless it is severed without that. -/
theorem read?_append_eq_none (hplain : Plain front) (hfront : front ≠ [])
    (hnot : kind = .anchor ∨ ¬ Severed front) :
    read? (front ++ ((ofIndex kind i).toText ++ rest)) = none := by
  refine read?_eq_none_iff.mpr fun sentinel hvalid hfound => ?_
  obtain ⟨tail, htail, hword, hover⟩ := hplain.exists_tail hvalid hfound
  rw [toText_ofIndex] at hover
  obtain ⟨hkind, rfl⟩ := eq_of_straddles hvalid hfront htail hword hover
  exact hnot.elim hkind fun hsevered => hsevered ⟨sentinel, hvalid, hword⟩

end Sentinel

variable {front rest : Text} {kind : Kind} {i : Nat}

/-- Behind a text that it does not complete, a sentinel is found. -/
theorem stripSentinels_append_sentinel (hplain : Plain front) (hi : i < indexBound)
    (hapart : kind = .anchor ∨ ¬ EndsSevered front) :
    stripSentinels (front ++ ((ofIndex kind i).toText ++ rest)) = front ++ stripSentinels rest := by
  induction front with
  | nil => exact stripSentinels_of_read? (read?_ofIndex hi rest)
  | cons c front ih =>
    simp only [endsSevered_cons, not_or] at hapart
    have hread : read? (c :: front ++ ((ofIndex kind i).toText ++ rest)) = none :=
      read?_append_eq_none hplain (List.cons_ne_nil c front) (hapart.imp_right And.left)
    have hrest := ih (hplain.of_infix (List.suffix_cons c front).isInfix) (hapart.imp_right And.right)
    rw [List.cons_append] at hread ⊢
    rw [stripSentinels_cons_of_none hread, hrest, List.cons_append]

/-- Completed by what was put behind it, a severed sentinel is lost, and the rest of the other one
stands in its place. -/
theorem stripSentinels_severed (hsevered : Severed front) (hkind : kind ≠ .anchor) (back : Text) :
    stripSentinels (front ++ ((ofIndex kind i).toText ++ rest)) ≠ front ++ back := by
  obtain ⟨first, others, rfl⟩ := List.exists_cons_of_ne_nil hsevered.ne_nil
  obtain ⟨sentinel, hvalid, hword⟩ := hsevered
  obtain ⟨d, tail, hopening, hd⟩ := exists_opening_eq hkind
  obtain ⟨c, letters, hletters, hc⟩ := sentinel.exists_toText_eq
  have hsplit : first :: others ++ ((ofIndex kind i).toText ++ rest) =
      sentinel.toText ++ d :: (tail ++ (decimal i ++ (kind.closing ++ rest))) := by
    rw [toText_ofIndex, hopening, ← hword]
    simp
  have hnone : read? (d :: (tail ++ (decimal i ++ (kind.closing ++ rest)))) = none := by
    refine read?_eq_none_iff.mpr fun other _ hprefix => ?_
    obtain ⟨e, others, hothers, he⟩ := other.exists_toText_eq
    rw [hothers] at hprefix
    obtain ⟨rfl, -⟩ := List.cons_prefix_cons.mp hprefix
    exact he.elim hd.1 hd.2
  rw [hsplit, stripSentinels_of_read? (read?_eq_some_iff.mpr ⟨hvalid, rfl⟩),
    stripSentinels_cons_of_none hnone]
  intro heq
  rw [← hword] at hletters
  obtain ⟨rfl, -⟩ := List.cons.inj heq
  obtain ⟨rfl, -⟩ := List.cons.inj hletters
  exact hc.elim hd.1 hd.2

/-- Behind a text that ends with a severed sentinel, a start or an end of a highlight is not found. -/
theorem stripSentinels_append_ne (hplain : Plain front) (hkind : kind ≠ .anchor)
    (hends : EndsSevered front) (back : Text) :
    stripSentinels (front ++ ((ofIndex kind i).toText ++ rest)) ≠ front ++ back := by
  induction front with
  | nil => exact absurd hends not_endsSevered_nil
  | cons c front ih =>
    by_cases hsevered : Severed (c :: front)
    · exact stripSentinels_severed hsevered hkind back
    · have hread : read? (c :: front ++ ((ofIndex kind i).toText ++ rest)) = none :=
        read?_append_eq_none hplain (List.cons_ne_nil c front) (.inr hsevered)
      have hrest := ih (hplain.of_infix (List.suffix_cons c front).isInfix)
        ((endsSevered_cons.mp hends).resolve_left hsevered)
      rw [List.cons_append] at hread ⊢
      rw [stripSentinels_cons_of_none hread]
      exact fun heq => hrest (List.cons.inj heq).2

/-! ### Rows of text and marks -/

/-- No mark of a start or an end stands behind a severed sentinel; `front` is the text under way. -/
def Apart (front : Text) : List Token → Prop
  | [] => True
  | .text t :: tokens => Apart (front ++ t) tokens
  | .mark kind _ :: tokens => (kind = .anchor ∨ ¬ EndsSevered front) ∧ Apart [] tokens

/-- Without its sentinels, a text that was put together is its literals, if the sentinels stand
apart. -/
theorem stripSentinels_write_iff {tokens : List Token} (hplain : Plain (front ++ literals tokens))
    (hindex : ∀ kind i, (kind, i) ∈ Token.marks tokens → i < indexBound) :
    stripSentinels (front ++ tokens.flatMap Token.write) = front ++ literals tokens ↔
      Apart front tokens := by
  induction tokens generalizing front with
  | nil =>
    rw [List.flatMap_nil, Token.literals_nil, List.append_nil] at *
    exact iff_of_true (stripSentinels_of_plain hplain) trivial
  | cons token tokens ih =>
    cases token with
    | text t =>
      rw [Apart, ← ih (by simpa using hplain) hindex]
      simp [Token.write]
    | mark kind i =>
      have hi : i < indexBound := hindex kind i (by simp)
      have hfront : Plain front := hplain.of_infix (List.prefix_append _ _).isInfix
      have hrest : Plain ([] ++ literals tokens) :=
        hplain.of_infix (List.suffix_append front _).isInfix
      have htail := ih hrest fun k j hkj => hindex k j (List.mem_cons_of_mem _ hkj)
      rw [List.flatMap_cons, Token.write, literals_mark, Apart, ← htail]
      by_cases hapart : kind = .anchor ∨ ¬ EndsSevered front
      · rw [stripSentinels_append_sentinel hfront hi hapart]
        simp [hapart]
      · rw [not_or, not_not] at hapart
        have hne : stripSentinels (front ++ ((ofIndex kind i).toText ++ tokens.flatMap Token.write)) ≠
            front ++ literals tokens :=
          stripSentinels_append_ne hfront hapart.1 hapart.2 (literals tokens)
        exact ⟨fun heq => absurd heq hne, fun h => absurd h.1 (by simp [hapart])⟩

namespace Injection

/-! ### Where the sentinels of highlights stand -/

variable {placed : List Placed} {offset byte : Nat}

/-- A highlight ends right behind the severed sentinel `word`, and no sentinel stands inside of that.  The
text before it, `before`, begins at byte `offset`. -/
def MendedAt (placed : List Placed) (offset : Nat) (before word : Text) : Prop :=
  Severed word ∧ (∃ p ∈ placed, p.stopByte = offset + (before ++ word).byteLength) ∧
    ∀ p ∈ placed, ∀ kind, ¬ (offset + before.byteLength < p.byteOf kind ∧
      p.byteOf kind < offset + (before ++ word).byteLength)

/-- A severed sentinel of the text, which begins at byte `offset`, is mended. -/
def Mends (placed : List Placed) (offset : Nat) (text : Text) : Prop :=
  ∃ before word after, text = before ++ (word ++ after) ∧ MendedAt placed offset before word

theorem mendedAt_append (hbyte : offset + front.byteLength = byte) (before word : Text) :
    MendedAt placed offset (front ++ before) word ↔ MendedAt placed byte before word := by
  subst hbyte
  simp only [MendedAt, byteLength_append, Nat.add_assoc]

/-- Nothing is mended behind the last sentinel. -/
theorem not_mends (h : ∀ p ∈ placed, ∀ kind, p.byteOf kind ≤ offset) (text : Text) :
    ¬ Mends placed offset text := by
  rintro ⟨before, word, after, -, hsevered, ⟨p, hp, hstop⟩, -⟩
  have hle := h p hp .stop
  have hpos := byteLength_pos hsevered.ne_nil
  rw [byteLength_append] at hstop
  simp only [Placed.byteOf] at hle
  omega

/-- Of two fronts of a text, the one with fewer bytes is a front of the other. -/
theorem prefix_of_byteLength_le {s t s' t' : Text} (h : s ++ s' = t ++ t')
    (hbytes : s.byteLength ≤ t.byteLength) : ∃ part, t = s ++ part ∧ s' = part ++ t' := by
  rcases List.append_eq_append_iff.mp h with hpart | ⟨part, rfl, rfl⟩
  · exact hpart
  · have hpart : part = [] := by
      by_contra hne
      have hpos := byteLength_pos hne
      rw [byteLength_append] at hbytes
      omega
    exact ⟨[], by simp [hpart], by simp [hpart]⟩

/-- Two fronts of a text with as many bytes are the same. -/
theorem eq_of_byteLength_eq {s t s' t' : Text} (h : s ++ s' = t ++ t')
    (hbytes : s.byteLength = t.byteLength) : s = t := by
  obtain ⟨part, hpart, -⟩ := prefix_of_byteLength_le h hbytes.le
  obtain ⟨part', hpart', -⟩ := prefix_of_byteLength_le h.symm hbytes.ge
  exact List.IsPrefix.eq_of_length_le ⟨part, hpart.symm⟩ (by simp [hpart'])

/-- A sentinel between two texts: a severed one is mended at the end of the first, or behind it. -/
theorem mends_append (hbyte : offset + front.byteLength = byte)
    (hmarked : ∃ p ∈ placed, ∃ kind, p.byteOf kind = byte)
    (hgap : ∀ p ∈ placed, ∀ kind, p.byteOf kind ≤ offset ∨ byte ≤ p.byteOf kind) (text : Text) :
    Mends placed offset (front ++ text) ↔
      ((∃ p ∈ placed, p.stopByte = byte) ∧ EndsSevered front) ∨ Mends placed byte text := by
  constructor
  · rintro ⟨before, word, after, htext, hmended⟩
    have ⟨hsevered, ⟨p, hp, hstop⟩, hwhole⟩ := hmended
    have hpos := byteLength_pos hsevered.ne_nil
    have hlength : (before ++ word).byteLength = before.byteLength + word.byteLength :=
      byteLength_append before word
    have hstop' := hgap p hp .stop
    simp only [Placed.byteOf] at hstop'
    obtain ⟨q, hq, kind, hqbyte⟩ := hmarked
    have hinside := hwhole q hq kind
    by_cases hend : offset + (before ++ word).byteLength = byte
    · rw [← List.append_assoc] at htext
      have hfront : front = before ++ word := eq_of_byteLength_eq htext (by omega)
      exact .inl ⟨⟨p, hp, by omega⟩, word, ⟨before, hfront.symm⟩, hsevered⟩
    · -- No sentinel stands inside of the severed one, so that begins behind the first text.
      obtain ⟨part, rfl, rfl⟩ := prefix_of_byteLength_le htext (by omega)
      exact .inr ⟨part, word, after, rfl, (mendedAt_append hbyte part word).mp hmended⟩
  · rintro (⟨hstop, word, ⟨before, rfl⟩, hsevered⟩ | ⟨before, word, after, rfl, hmended⟩)
    · refine ⟨before, word, text, List.append_assoc _ _ _, hsevered, by rwa [hbyte], ?_⟩
      intro p hp kind
      have hp := hgap p hp kind
      omega
    · refine ⟨front ++ before, word, after, (List.append_assoc _ _ _).symm, ?_⟩
      exact (mendedAt_append hbyte before word).mpr hmended

theorem apart_map_markToken (marks : List (Kind × Nat)) (tokens : List Token) :
    Apart [] (marks.map markToken ++ tokens) ↔ Apart [] tokens := by
  induction marks with
  | nil => rfl
  | cons mark marks ih =>
    rw [List.map_cons, List.cons_append, markToken, Apart, ih]
    exact and_iff_right (.inr not_endsSevered_nil)

/-- Where a highlight ends, an end is the first mark; elsewhere, an anchor is. -/
theorem apart_marksAt {tokens : List Token} (hmarked : marksAt placed byte ≠ []) :
    Apart front ((marksAt placed byte).map markToken ++ tokens) ↔
      ¬ ((∃ p ∈ placed, p.stopByte = byte) ∧ EndsSevered front) ∧ Apart [] tokens := by
  obtain ⟨⟨kind, i⟩, marks, hmarks⟩ := List.exists_cons_of_ne_nil hmarked
  have hkind : kind = .anchor ↔ ¬ ∃ p ∈ placed, p.stopByte = byte := by
    cases hstops : placed.reverse.filter (·.stopByte = byte) with
    | nil =>
      have hnone : ¬ ∃ p ∈ placed, p.stopByte = byte := by simpa using hstops
      cases hstarts : placed.filter (·.startByte = byte) with
      | nil => simp [marksAt, hstops, hstarts] at hmarks
      | cons p starts =>
        simp only [marksAt, hstops, hstarts, List.map_nil, List.nil_append, List.flatMap_cons,
          List.cons_append, List.cons.injEq, Prod.mk.injEq] at hmarks
        exact iff_of_true hmarks.1.1.symm hnone
    | cons p stops =>
      have hp : p ∈ placed.reverse.filter (·.stopByte = byte) := hstops ▸ List.mem_cons_self
      simp only [marksAt, hstops, List.map_cons, List.cons_append, List.cons.injEq,
        Prod.mk.injEq] at hmarks
      refine iff_of_false (by rw [← hmarks.1.1]; exact Kind.noConfusion) (not_not_intro ⟨p, ?_⟩)
      simpa using hp
  rw [hmarks, List.map_cons, List.cons_append, markToken, Apart, apart_map_markToken, hkind,
    not_and_or]

theorem exists_of_marksAt_ne_nil (h : marksAt placed byte ≠ []) :
    ∃ p ∈ placed, ∃ kind, p.byteOf kind = byte := by
  obtain ⟨⟨kind, i⟩, hmem⟩ := List.exists_mem_of_ne_nil _ h
  obtain ⟨p, hp, -, hbyte⟩ := mem_marksAt.mp hmem
  exact ⟨p, hp, kind, hbyte⟩

theorem ne_of_marksAt_eq_nil (h : marksAt placed byte = []) {p : Placed} (hp : p ∈ placed)
    (kind : Kind) : p.byteOf kind ≠ byte := by
  intro hbyte
  have hmem : (kind, p.index) ∈ marksAt placed byte := mem_marksAt.mpr ⟨p, hp, rfl, hbyte⟩
  rw [h] at hmem
  cases hmem

/-- Sentinels stand apart from the text that `front` begins if none of them mends it. -/
theorem apart_strands {pieces : List Piece} (hbyte : offset + front.byteLength = byte)
    (hplaced : ∀ p ∈ placed, ∀ kind, p.byteOf kind ≤ offset ∨ p.byteOf kind ∈ offsets byte pieces) :
    Apart front (strands placed byte pieces) ↔
      ¬ Mends placed offset (front ++ Piece.sources pieces) := by
  induction pieces generalizing offset byte front with
  | nil =>
    simp only [offsets, List.mem_singleton] at hplaced
    rw [strands, Piece.sources_nil]
    by_cases hmarks : marksAt placed byte = []
    · have hnone : ∀ p ∈ placed, ∀ kind, p.byteOf kind ≤ offset := fun p hp kind =>
        (hplaced p hp kind).resolve_right (ne_of_marksAt_eq_nil hmarks hp kind)
      rw [hmarks, List.map_nil]
      exact iff_of_true trivial (not_mends hnone _)
    · have hgap : ∀ p ∈ placed, ∀ kind, p.byteOf kind ≤ offset ∨ byte ≤ p.byteOf kind :=
        fun p hp kind => (hplaced p hp kind).imp_right ge_of_eq
      have hlast : ¬ Mends placed byte [] := by
        refine not_mends (fun p hp kind => ?_) []
        have hp := hplaced p hp kind
        omega
      rw [← List.append_nil (List.map _ _), apart_marksAt hmarks,
        mends_append hbyte (exists_of_marksAt_ne_nil hmarks) hgap, not_or, and_iff_left hlast]
      exact and_iff_left trivial
  | cons piece pieces ih =>
    have hgap : ∀ p ∈ placed, ∀ kind, p.byteOf kind ≤ offset ∨ byte ≤ p.byteOf kind :=
      fun p hp kind => (hplaced p hp kind).imp_right le_of_mem_offsets
    simp only [offsets, List.mem_cons] at hplaced
    rw [strands, Piece.sources_cons]
    by_cases hmarks : marksAt placed byte = []
    · -- The text under way goes on.
      have hbyte' : offset + (front ++ piece.source).byteLength = byte + piece.source.byteLength := by
        rw [byteLength_append, ← hbyte, Nat.add_assoc]
      have hplaced' : ∀ p ∈ placed, ∀ kind, p.byteOf kind ≤ offset ∨
          p.byteOf kind ∈ offsets (byte + piece.source.byteLength) pieces := fun p hp kind =>
        (hplaced p hp kind).imp_right (·.resolve_left (ne_of_marksAt_eq_nil hmarks hp kind))
      rw [hmarks, List.map_nil, List.nil_append, Apart, ih hbyte' hplaced', List.append_assoc]
    · have hplaced' : ∀ p ∈ placed, ∀ kind, p.byteOf kind ≤ byte ∨
          p.byteOf kind ∈ offsets (byte + piece.source.byteLength) pieces := by
        intro p hp kind
        rcases hplaced p hp kind with h | h | h
        · exact .inl (h.trans (hbyte ▸ Nat.le_add_right _ _))
        · exact .inl h.le
        · exact .inr h
      rw [apart_marksAt hmarks, mends_append hbyte (exists_of_marksAt_ne_nil hmarks) hgap, not_or,
        Apart, List.nil_append, ih rfl hplaced']

/-! ### The whole text -/

variable {mode : Whitespace} {markup : Text} {highlights : List Highlight}

/-- **Taking out what was put in.**  The sentinels of highlights come out of a text without any other,
exactly if no highlight ends right behind a severed one. -/
theorem stripSentinels_inject_iff (hplain : (Marked.ofText markup).sentinels = [])
    (hfew : highlights.length < indexBound) :
    stripSentinels (inject mode markup highlights).markup = markup ↔
      ¬ Mends (inject mode markup highlights).placed 0 markup := by
  have hpieces : ∀ p ∈ pieces mode markup, p.source ≠ [] := fun p => source_ne_nil_of_mem_pieces
  have haligned := (fits_inject mode markup highlights).aligned hpieces
  have hsources := sources_pieces mode markup
  generalize hplaced : (inject mode markup highlights).placed = placed at haligned
  have hmarkup : (inject mode markup highlights).markup =
      [] ++ (strands placed 0 (pieces mode markup)).flatMap Token.write := by
    rw [← hplaced]
    exact splice_eq_write _ _ _
  have hliterals : markup = [] ++ literals (strands placed 0 (pieces mode markup)) := by
    rw [literals_strands, hsources, List.nil_append]
  have hindex : ∀ kind i, (kind, i) ∈ Token.marks (strands placed 0 (pieces mode markup)) →
      i < indexBound := by
    intro kind i hmem
    have hi := haligned.mem_marks_strands.mp hmem
    have hlength := length_inject_le mode markup highlights
    rw [hplaced] at hlength
    omega
  have hapart : Apart [] (strands placed 0 (pieces mode markup)) ↔
      ¬ Mends placed 0 ([] ++ Piece.sources (pieces mode markup)) :=
    apart_strands rfl fun p hp kind => .inr (haligned.mem p hp kind)
  rw [hsources, List.nil_append] at hapart
  rw [← hapart, ← stripSentinels_write_iff (hliterals ▸ plain_iff.mpr hplain) hindex, ← hmarkup,
    ← hliterals]

/-- Two highlights that meet inside a severed sentinel: the second one ends right behind it. -/
theorem stripSentinels_inject_meeting :
    let markup := "HLSTART1END".toList
    let highlights : List Highlight :=
      [⟨"first", 0, 7, "", "", ⟨19723, 0, 0⟩, [], none⟩,
        ⟨"second", 7, 11, "", "", ⟨19723, 0, 0⟩, [], none⟩]
    (Marked.ofText markup).sentinels = [] ∧ highlights.length < indexBound ∧
      stripSentinels (inject .collapse markup highlights).markup = markup ∧
      ¬ Mends (inject .collapse markup highlights).placed 0 markup := by
  intro markup highlights
  have hplain : (Marked.ofText markup).sentinels = [] := by decide +kernel
  have hfew : highlights.length < indexBound := by decide
  have hstrip : stripSentinels (inject .collapse markup highlights).markup = markup := by
    decide +kernel
  exact ⟨hplain, hfew, hstrip, (stripSentinels_inject_iff hplain hfew).mp hstrip⟩

/-- A highlight of a severed sentinel: what is left is the rest of the highlight's own end. -/
theorem not_stripSentinels_inject : ¬ ∀ mode markup highlights,
    (Marked.ofText markup).sentinels = [] → highlights.length < indexBound →
    stripSentinels (inject mode markup highlights).markup = markup := by
  intro h
  have hplain : (Marked.ofText "HLSTART1END".toList).sentinels = [] := by decide +kernel
  have hstrip := h .collapse _ [⟨"h", 0, 11, "", "", ⟨19723, 0, 0⟩, [], none⟩] hplain (by decide)
  revert hstrip
  decide +kernel

end Injection

end Marginalia
