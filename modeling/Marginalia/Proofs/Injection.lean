import Marginalia.Proofs.Markup.TextNode
import Marginalia.Proofs.Placement

/-! # Sentinels between pieces are text

Injection writes sentinels between the pieces of a marked-up text.  Read as marked-up text again,
the result shows what the text showed with the sentinels in it, so that nothing changes for the
reader once they are taken out (`Injection.stripSentinels_visibleText`).

This needs more than a text without the opening words of sentinels, for a sentinel begins with a
letter, and what stands before or behind it may not be read the same beside one (`Neutral`).  After
an opening bracket that shows itself, a tag begins (`Injection.not_stripSentinels_visibleText`).
After `&ET`, the end of a highlight completes the name of a character.  A tag `<br` that is still
open goes on with the sentinel as its name.  White space that only lays out the source shows, beside
a sentinel, a space.  Everywhere else sentinels may stand: behind a tag, beside white space that is
collapsed, and before or after any other reference.

The pieces are gone through in order (`adorned_visibleText`).  A tag or a comment is read on its
own, and so is the text up to the next one.
-/
namespace Marginalia

open Text Sentinel Markup
open Piece (sources sources_cons sources_append)
open Joints (toText_nil toText_cons toText_append spelled_nil)

/-! ### Texts with sentinels in them -/

/-- The text is the other one with sentinels put in. -/
def Adorned (shown text : Text) : Prop :=
  ∃ tokens : List Token, Token.literals tokens = shown ∧ tokens.flatMap Token.write = text ∧
    ∀ kind i, (kind, i) ∈ Token.marks tokens → i < indexBound

namespace Adorned

variable {shown shown' text text' : Text}

theorem refl (text : Text) : Adorned text text :=
  ⟨[.text text], by simp, by simp [Token.write], by simp⟩

theorem append (h : Adorned shown text) (h' : Adorned shown' text') :
    Adorned (shown ++ shown') (text ++ text') := by
  obtain ⟨tokens, rfl, rfl, hindex⟩ := h
  obtain ⟨tokens', rfl, rfl, hindex'⟩ := h'
  refine ⟨tokens ++ tokens', Token.literals_append _ _, List.flatMap_append, ?_⟩
  intro kind i hmem
  rw [Token.marks_append, List.mem_append] at hmem
  exact hmem.elim (hindex kind i) (hindex' kind i)

theorem literals_ofTokens (front : Text) (tokens : List Token) :
    (Marked.ofTokens front tokens).literals = front ++ Token.literals tokens := by
  induction tokens generalizing front with
  | nil => simp [Marked.ofTokens, Marked.literals]
  | cons token tokens ih =>
    cases token with
    | text t => rw [Marked.ofTokens, ih, Token.literals_text, List.append_assoc]
    | mark kind i =>
      have hrest := ih []
      rw [Token.literals_mark, ← List.nil_append (Token.literals tokens), ← hrest]
      simp [Marked.ofTokens, Marked.literals]

/-- Without its sentinels, the text is the other one. -/
theorem stripSentinels (h : Adorned shown text) (hclean : Clean shown) :
    stripSentinels text = shown := by
  obtain ⟨tokens, rfl, rfl, hindex⟩ := h
  have hread : Marked.ofText ([] ++ tokens.flatMap Token.write) = Marked.ofTokens [] tokens :=
    Marked.ofText_write hclean hindex
  rw [List.nil_append] at hread
  rw [Marginalia.stripSentinels, hread, literals_ofTokens, List.nil_append]

end Adorned

/-! ### Rows of sentinels -/

/-- A row of sentinels without anything between them. -/
def SentinelRow (word : Text) : Prop :=
  ∃ marks : List (Kind × Nat), (marks.map Injection.markToken).flatMap Token.write = word ∧
    ∀ m ∈ marks, m.2 < indexBound

namespace SentinelRow

variable {word : Text}

theorem adorned (h : SentinelRow word) : Adorned [] word := by
  obtain ⟨marks, rfl, hindex⟩ := h
  refine ⟨_, Injection.literals_map_markToken marks, rfl, fun kind i hmem => ?_⟩
  rw [Injection.marks_map_markToken] at hmem
  exact hindex _ hmem

theorem nil : SentinelRow [] :=
  ⟨[], rfl, by simp⟩

theorem adorned_append (h : SentinelRow word) {shown text : Text} (htext : Adorned shown text) :
    Adorned shown (word ++ text) := by
  have happend := h.adorned.append htext
  rwa [List.nil_append] at happend

theorem isAlphanum_of_mem_toText {kind : Kind} {i : Nat} {c : Char}
    (h : c ∈ (ofIndex kind i).toText) : c.isAlphanum = true := by
  have hletters : (∀ c ∈ kind.opening, c.isAlphanum = true) ∧
      ∀ c ∈ kind.closing, c.isAlphanum = true := by cases kind <;> decide
  rw [Sentinel.toText, List.mem_append, List.mem_append] at h
  rcases h with (h | h) | h
  · exact hletters.1 c h
  · exact Bool.or_eq_true_iff.mpr (.inr (isDigit_of_mem_decimal h))
  · exact hletters.2 c h

theorem alnum (h : SentinelRow word) : ∀ c ∈ word, c.isAlphanum = true := by
  obtain ⟨marks, rfl, -⟩ := h
  intro c hc
  obtain ⟨token, htoken, hc⟩ := List.mem_flatMap.mp hc
  obtain ⟨m, -, rfl⟩ := List.mem_map.mp htoken
  exact isAlphanum_of_mem_toText hc

/-- A row of sentinels is a word such as references do not go over into. -/
theorem sentinelWord (h : SentinelRow word) (hne : word ≠ []) : SentinelWord word := by
  have halnum := h.alnum
  obtain ⟨marks, rfl, -⟩ := h
  cases marks with
  | nil => exact absurd rfl hne
  | cons m marks =>
    obtain ⟨kind, i⟩ := m
    have hword : ((⟨kind, i⟩ :: marks).map Injection.markToken).flatMap Token.write =
        kind.opening ++ (decimal i ++ (kind.closing ++
          (marks.map Injection.markToken).flatMap Token.write)) := by
      simp [Injection.markToken, Token.write, Sentinel.toText, ofIndex]
    rw [hword] at halnum ⊢
    refine ⟨halnum, ?_, ?_⟩
    · -- Five letters, a digit and five letters are already one more than a number may reach.
      have hletters : 5 ≤ kind.opening.length ∧ 5 ≤ kind.closing.length := by cases kind <;> decide
      have hdigits : 0 < (decimal i).length := Nat.length_toDigits_pos
      simp only [Reference.numericReach, List.length_append]
      omega
    · have hfront : "HL".toList <+: kind.opening ∨ "AN".toList <+: kind.opening := by
        cases kind <;> decide
      exact hfront.imp (·.trans (List.prefix_append _ _)) (·.trans (List.prefix_append _ _))

end SentinelRow

/-! ### Reading pieces with sentinels between them -/

/-- Between these pieces, the word is read as nothing but text. -/
structure Neutral (before after : List Piece) (word : Text) : Prop where
  -- A tag begins with a letter after an opening bracket.
  bracket : (sources before).getLast? ≠ some '<'
  -- `&ETH` is a reference also without a semicolon.
  reference : word.head? = some 'H' → ¬ "&ET".toList <:+ sources before
  -- At the end of the text, the name of a tag may still go on.
  lineBreak : ∀ p ∈ before.getLast?.toList, p.source.map Char.toLower ≠ "<br".toList
  -- With a word in it, a text between tags no longer only lays out the source.
  layout : ∀ p ∈ before.getLast?.toList ++ after.head?.toList, p.shown = [] →
    isLayout p.source = false

instance (before after : List Piece) (word : Text) : Decidable (Neutral before after word) :=
  decidable_of_iff ((sources before).getLast? ≠ some '<' ∧
      (word.head? = some 'H' → ¬ "&ET".toList <:+ sources before) ∧
      (∀ p ∈ before.getLast?.toList, p.source.map Char.toLower ≠ "<br".toList) ∧
      ∀ p ∈ before.getLast?.toList ++ after.head?.toList, p.shown = [] → isLayout p.source = false)
    ⟨fun ⟨h₁, h₂, h₃, h₄⟩ => ⟨h₁, h₂, h₃, h₄⟩, fun ⟨h₁, h₂, h₃, h₄⟩ => ⟨h₁, h₂, h₃, h₄⟩⟩

/-- A row of sentinels that is neutral; at the end of the text, it stands behind something visible. -/
structure Sits (before after : List Piece) (word : Text) : Prop extends
    Neutral before after word where
  row : SentinelRow word
  visible : after = [] → ∀ p ∈ before.getLast?, p.shown ≠ []

/-- All words sit between their pieces. -/
def Settled (before after : List Piece) : Joints → Prop
  | [] => True
  | (piece, word) :: joints =>
    (word ≠ [] → Sits (before ++ [piece]) (joints.map Prod.fst ++ after) word) ∧
      Settled (before ++ [piece]) after joints

namespace Settled

variable {before after : List Piece} {joints joints' : Joints}

theorem append_iff : Settled before after (joints ++ joints') ↔
    Settled before (joints'.map Prod.fst ++ after) joints ∧
      Settled (before ++ joints.map Prod.fst) after joints' := by
  induction joints generalizing before with
  | nil => simp [Settled]
  | cons joint joints ih =>
    obtain ⟨piece, word⟩ := joint
    rw [List.cons_append, Settled, Settled, ih, List.map_append, List.map_cons, List.append_assoc,
      List.append_assoc, List.singleton_append, and_assoc]

theorem clear (h : Settled before after joints) : Joints.Clear (sources before) joints := by
  induction joints generalizing before with
  | nil => trivial
  | cons joint joints ih =>
    obtain ⟨piece, word⟩ := joint
    have hsources : sources (before ++ [piece]) = sources before ++ piece.source := by simp
    refine ⟨fun hne => ?_, ?_⟩
    · rw [← hsources]
      exact ⟨(h.1 hne).row.sentinelWord hne, (h.1 hne).reference⟩
    · rw [← hsources]
      exact ih h.2

theorem row (h : Settled before after joints) : ∀ joint ∈ joints, SentinelRow joint.2 := by
  induction joints generalizing before with
  | nil => simp
  | cons joint joints ih =>
    refine List.forall_mem_cons.mpr ⟨?_, ih h.2⟩
    by_cases hne : joint.2 = []
    · rw [hne]
      exact SentinelRow.nil
    · exact (h.1 hne).row

theorem bracket (h : Settled before after joints)
    (hsource : ∀ joint ∈ joints, joint.1.source ≠ []) :
    ∀ joint ∈ joints, joint.2 ≠ [] → joint.1.source.getLast? ≠ some '<' := by
  induction joints generalizing before with
  | nil => simp
  | cons joint joints ih =>
    obtain ⟨hne, hsource⟩ := List.forall_mem_cons.mp hsource
    refine List.forall_mem_cons.mpr ⟨fun hword => ?_, ih h.2 hsource⟩
    have hlast := (h.1 hword).bracket
    rwa [sources_append, sources_cons, List.getLast?_append_of_ne_nil _ (by simpa using hne),
      Piece.sources_nil, List.append_nil] at hlast

/-- No word stands beside a text that only lays out the source. -/
theorem layout {text : Text} (h : Settled before after joints)
    (hpieces : joints.map Prod.fst = textPieces .collapse text) (hlayout : isLayout text = true) :
    ∀ joint ∈ joints, joint.2 = [] := by
  rw [textPieces, if_pos hlayout] at hpieces
  obtain ⟨⟨piece, word⟩, rfl, rfl⟩ := List.map_eq_singleton_iff.mp hpieces
  refine List.forall_mem_singleton.mpr ?_
  by_contra hne
  have hlaid := (h.1 hne).layout ⟨text, []⟩ (by simp) rfl
  rw [hlayout] at hlaid
  cases hlaid

end Settled

section Reading

variable {mode : Whitespace} {text rest word : Text} {before : List Piece} {joints : Joints}

theorem adorned_spelled (h : ∀ joint ∈ joints, SentinelRow joint.2) :
    Adorned (shownText (joints.map Prod.fst)) (shownText joints.spelled) := by
  induction joints with
  | nil => exact Adorned.refl []
  | cons joint joints ih =>
    obtain ⟨hrow, hrest⟩ := List.forall_mem_cons.mp h
    have hjoint := (Adorned.refl joint.1.shown).append (hrow.adorned.append (ih hrest))
    have hspelled : shownText (Joints.spelled (joint :: joints)) =
        joint.1.shown ++ (joint.2 ++ shownText (Joints.spelled joints)) := by
      rw [← shownText_letters joint.2, ← shownText_append]
      rfl
    rw [hspelled]
    exact hjoint

/-- Sentinels before a tag show themselves. -/
theorem visibleText_row (h : SentinelRow word) (hrest : rest = [] ∨ startsTag rest = true) :
    visibleText mode (word ++ rest) = word ++ visibleText mode rest := by
  have hletters : textPieces mode word = letters word := by
    have hnil : ([] : Joints).map Prod.fst = textPieces mode [] := (textPieces_nil mode).symm
    have htext := @textPieces_toText [] word [] [] mode hnil trivial h.sentinelWord
    simpa using htext fun hlaid => by cases hlaid
  have hends : EndsAtTag word rest := ⟨untagged_word h.alnum, hrest⟩
  rw [visibleText, hends.pieces, shownText_append, hletters, shownText_letters]
  rfl

/-- Sentinels behind a tag at the end of the text. -/
theorem adorned_of_last_tag (htag : startsTag text = true) (hend : (markupPiece text).2 = [])
    (hword : word ≠ [] → Sits (before ++ [(markupPiece text).1]) [] word) :
    Adorned (visibleText mode text) (visibleText mode (text ++ word)) := by
  by_cases hne : word = []
  · rw [hne, List.append_nil]
    exact Adorned.refl _
  · have hsits := hword hne
    have hshown : (markupPiece text).1.shown ≠ [] := hsits.visible rfl _ (by simp)
    have hname := hsits.lineBreak (markupPiece text).1 (by simp)
    obtain ⟨hshown', hrest'⟩ := markupPiece_append_word htag hend hshown hname hsits.row.alnum
    rw [visibleText_of_startsTag htag, visibleText_of_startsTag (startsTag_append htag word),
      hshown', hend, visibleText_nil]
    refine (Adorned.refl _).append ?_
    -- The tag takes the sentinels in or it does not.
    rcases hrest' with hrest' | hrest'
    · rw [hrest', visibleText_nil]
      exact Adorned.refl []
    · have hself := @visibleText_row mode [] word hsits.row (.inl rfl)
      rw [List.append_nil, visibleText_nil, List.append_nil] at hself
      rw [hrest', hself]
      exact hsits.row.adorned

/-- A tag or a comment is read as it was, and then what follows the sentinels behind it. -/
theorem adorned_of_tag (htag : startsTag text = true)
    (hjoints : joints.map Prod.fst = pieces mode (markupPiece text).2)
    (hword : word ≠ [] → Sits (before ++ [(markupPiece text).1]) (joints.map Prod.fst) word)
    (hrest : Adorned (visibleText mode (markupPiece text).2)
      (visibleText mode (word ++ joints.toText))) :
    Adorned (visibleText mode text)
      (visibleText mode ((markupPiece text).1.source ++ (word ++ joints.toText))) := by
  by_cases hend : (markupPiece text).2 = []
  · have happend := markupPiece_append htag
    rw [hend, List.append_nil] at happend
    rw [hend, pieces, List.map_eq_nil_iff] at hjoints
    subst hjoints
    rw [happend, toText_nil, List.append_nil]
    exact adorned_of_last_tag htag hend hword
  · have hstarts := startsTag_append (startsTag_markupPiece htag) (word ++ joints.toText)
    rw [visibleText_of_startsTag htag, visibleText_of_startsTag hstarts,
      markupPiece_append_rest htag hend]
    exact (Adorned.refl _).append hrest

/-- Sentinels in a text between tags. -/
theorem adorned_of_endsAtTag {front rest' : Text} {after : List Piece} (hfront : front ≠ [])
    (hends : EndsAtTag front rest) (hends' : rest' = [] ∨ startsTag rest' = true)
    (hhead : rest.head? = rest'.head?) (hjoints : joints.map Prod.fst = textPieces mode front)
    (hsettled : Settled before after joints) (hrow : SentinelRow word)
    (hlayout : word ≠ [] → ∀ p ∈ (textPieces mode front).head?, p.shown = [] →
      isLayout p.source = false)
    (hrest : Adorned (visibleText mode rest) (visibleText mode rest')) :
    Adorned (visibleText mode (front ++ rest))
      (visibleText mode (word ++ (joints.toText ++ rest'))) := by
  have hsource : ∀ joint ∈ joints, joint.1.source ≠ [] := by
    intro joint hjoint
    refine @source_ne_nil_of_mem_textPieces mode front joint.1 hfront ?_
    rw [← hjoints]
    exact List.mem_map_of_mem hjoint
  have htagged : EndsAtTag (word ++ joints.toText) rest' := by
    have huntagged := hends.untagged
    rw [← sources_textPieces mode front, ← hjoints] at huntagged
    have hwords := huntagged.toText hhead hsource fun joint hjoint hne =>
      ⟨hsettled.bracket hsource joint hjoint hne, (hsettled.row joint hjoint).alnum⟩
    exact ⟨untagged_append.mpr ⟨untagged_word hrow.alnum, hwords.1⟩, hends'⟩
  have hpieces : textPieces mode (word ++ joints.toText) = letters word ++ joints.spelled := by
    refine textPieces_toText hjoints hsettled.clear hrow.sentinelWord ?_
    rintro hlaid rfl
    refine ⟨?_, hsettled.layout hjoints hlaid⟩
    by_contra hne
    rw [textPieces, if_pos hlaid] at hlayout
    have hlaid' := hlayout hne ⟨front, []⟩ rfl rfl
    rw [hlaid] at hlaid'
    cases hlaid'
  rw [← List.append_assoc, visibleText, visibleText, hends.pieces, htagged.pieces, hpieces,
    List.append_assoc, shownText_append, shownText_append, shownText_append, shownText_letters,
    ← hjoints]
  exact hrow.adorned_append ((adorned_spelled hsettled.row).append hrest)

/-- **Sentinels between pieces.**  Read with sentinels between its pieces, a text shows what it showed,
with the sentinels in it. -/
theorem adorned_visibleText (hjoints : joints.map Prod.fst = pieces mode text)
    (hsettled : Settled before [] joints) (hrow : SentinelRow word)
    (hlayout : word ≠ [] → ∀ p ∈ (pieces mode text).head?, p.shown = [] →
      isLayout p.source = false) :
    Adorned (visibleText mode text) (visibleText mode (word ++ joints.toText)) := by
  induction hlength : text.length using Nat.strong_induction_on
    generalizing text before joints word with
  | _ length ih =>
  subst hlength
  rcases startsTag_or_endsAtTag text with htag | ⟨front, rest, rfl, hnil, hends⟩
  · rw [pieces_of_startsTag mode htag] at hjoints
    obtain ⟨⟨piece, next⟩, joints, rfl, rfl, hrest⟩ := List.map_eq_cons_iff.mp hjoints
    have hrow' : SentinelRow next := hsettled.row _ List.mem_cons_self
    obtain ⟨hnext, hsettled'⟩ := hsettled
    rw [List.append_nil] at hnext
    have hstarts := startsTag_append (startsTag_markupPiece htag) (next ++ Joints.toText joints)
    rw [toText_cons, visibleText_row hrow (.inr hstarts)]
    refine hrow.adorned_append (adorned_of_tag htag hrest hnext ?_)
    refine ih _ (length_markupPiece_lt htag) hrest hsettled' hrow' (fun hne p hp => ?_) rfl
    refine (hnext hne).layout p (List.mem_append_right _ ?_)
    rw [hrest]
    simpa using hp
  · by_cases hfront : front = []
    · rw [hnil hfront] at hjoints ⊢
      rw [pieces, List.map_eq_nil_iff] at hjoints
      rw [hjoints, toText_nil, visibleText_row hrow (.inl rfl)]
      exact hrow.adorned_append (Adorned.refl _)
    · -- The sentinels before the next tag belong to the text before it.
      rw [hends.pieces] at hjoints hlayout
      obtain ⟨joints₁, joints₂, rfl, hjoints₁, hjoints₂⟩ := List.map_eq_append_iff.mp hjoints
      rw [Settled.append_iff] at hsettled
      have hlt : rest.length < (front ++ rest).length := by
        have hpos := List.length_pos_iff.mpr hfront
        rw [List.length_append]
        omega
      have hrest := ih _ hlt hjoints₂ hsettled.2 SentinelRow.nil (fun hne => absurd rfl hne) rfl
      obtain ⟨hends', hhead⟩ := toText_of_ended hends.ended hjoints₂
      rw [toText_append]
      refine adorned_of_endsAtTag hfront hends hends' hhead hjoints₁ hsettled.1 hrow ?_ hrest
      exact fun hne p hp => hlayout hne p (List.mem_head?_append_of_mem_head? hp)

end Reading

namespace Injection

/-! ### Where injection writes sentinels -/

variable {placed : List Placed} {before after : List Piece} {mode : Whitespace}
  {markup : Text} {highlights : List Highlight}

/-- The row of sentinels at a byte of the source. -/
def rowAt (placed : List Placed) (byte : Nat) : Text :=
  (sentinelsAt placed byte).flatMap Sentinel.toText

/-- The pieces, the first of which begins at `byte`, each with the sentinels behind it. -/
def jointsFrom (placed : List Placed) (byte : Nat) : List Piece → Joints
  | [] => []
  | piece :: pieces =>
    let stop := byte + piece.source.byteLength
    (piece, rowAt placed stop) :: jointsFrom placed stop pieces

theorem map_jointsFrom (placed : List Placed) (byte : Nat) (pieces : List Piece) :
    (jointsFrom placed byte pieces).map Prod.fst = pieces := by
  induction pieces generalizing byte with
  | nil => rfl
  | cons piece pieces ih => rw [jointsFrom, List.map_cons, ih]

theorem splice_eq_toText (placed : List Placed) (byte : Nat) (pieces : List Piece) :
    splice placed byte pieces = rowAt placed byte ++ (jointsFrom placed byte pieces).toText := by
  induction pieces generalizing byte with
  | nil => simp [splice, jointsFrom, rowAt]
  | cons piece pieces ih =>
    rw [splice, jointsFrom, toText_cons, ih, List.append_assoc]
    rfl

theorem sentinelRow_rowAt (hindex : ∀ p ∈ placed, p.index < indexBound) (byte : Nat) :
    SentinelRow (rowAt placed byte) := by
  refine ⟨marksAt placed byte, (flatMap_toText_sentinelsAt placed byte).symm, ?_⟩
  rintro ⟨kind, i⟩ hmem
  obtain ⟨p, hp, rfl, -⟩ := mem_marksAt.mp hmem
  exact hindex p hp

/-- Sentinels at the end of the text stand behind a piece that shows something. -/
theorem shown_of_rowAt {last : Piece} (hpieces : ∀ p ∈ before ++ [last], p.source ≠ [])
    (hfits : Fits (units (before ++ [last])) placed)
    (hrow : rowAt placed (sources (before ++ [last])).byteLength ≠ []) : last.shown ≠ [] := by
  have hmarks : marksAt placed (sources (before ++ [last])).byteLength ≠ [] := by
    intro hnil
    rw [rowAt, flatMap_toText_sentinelsAt, hnil] at hrow
    exact hrow rfl
  obtain ⟨⟨kind, i⟩, hmark⟩ := List.exists_mem_of_ne_nil _ hmarks
  obtain ⟨p, hp, -, hbyte⟩ := mem_marksAt.mp hmark
  obtain ⟨-, first, final, hfirst, hfinal, hstart, hstop⟩ := hfits.spans p hp
  have hfirst := List.mem_of_getElem? hfirst
  have hfinal := List.mem_of_getElem? hfinal
  have hstop : p.stopByte = (sources (before ++ [last])).byteLength := by
    have hlt := start_lt_stop_of_mem_unitsFrom hpieces hfirst
    have hle := stop_le_of_mem_unitsFrom hfirst
    cases kind with
    | stop => exact hbyte
    | start | anchor =>
      rw [Placed.byteOf, hstart] at hbyte
      omega
  -- The last unit of the highlight comes from the last piece: no other reaches so far.
  rw [units, unitsFrom_append, List.mem_append] at hfinal
  rcases hfinal with hmem | hmem
  · have hle := stop_le_of_mem_unitsFrom hmem
    have hpos := byteLength_pos (hpieces last (by simp))
    rw [sources_append, byteLength_append] at hstop
    simp at hstop
    omega
  · intro hnil
    simp [unitsFrom, hnil] at hmem

/-- All rows of sentinels sit between the pieces of a text if they are neutral there. -/
theorem settled_jointsFrom (hpieces : ∀ p ∈ before ++ after, p.source ≠ [])
    (hindex : ∀ p ∈ placed, p.index < indexBound) (hfits : Fits (units (before ++ after)) placed)
    (hneutral : ∀ front back, front ++ back = before ++ after →
      rowAt placed (sources front).byteLength ≠ [] →
      Neutral front back (rowAt placed (sources front).byteLength)) :
    Settled before [] (jointsFrom placed (sources before).byteLength after) := by
  induction after generalizing before with
  | nil => trivial
  | cons piece after ih =>
    have hstop : (sources before).byteLength + piece.source.byteLength =
        (sources (before ++ [piece])).byteLength := by simp
    rw [List.append_cons] at hpieces hfits hneutral
    rw [jointsFrom, hstop]
    refine ⟨fun hne => ?_, ih hpieces hfits hneutral⟩
    rw [map_jointsFrom, List.append_nil]
    refine { toNeutral := hneutral _ _ rfl hne, row := sentinelRow_rowAt hindex _, visible := ?_ }
    rintro rfl p hp
    rw [List.append_nil] at hpieces hfits
    obtain rfl : piece = p := by simpa using hp
    exact shown_of_rowAt hpieces hfits hne

/-- Wherever injection writes sentinels between the pieces, they are neutral. -/
def Undisturbed (placed : List Placed) (pieces : List Piece) : Prop :=
  ∀ n ≤ pieces.length, rowAt placed (sources (pieces.take n)).byteLength ≠ [] →
    Neutral (pieces.take n) (pieces.drop n) (rowAt placed (sources (pieces.take n)).byteLength)

instance (placed : List Placed) (pieces : List Piece) : Decidable (Undisturbed placed pieces) :=
  inferInstanceAs (Decidable (∀ n ≤ pieces.length, _ → _))

/-- **Sentinels are inert.**  Taken out of what the text shows after injection, the sentinels leave what
it showed before, if they are neutral where they stand. -/
theorem stripSentinels_visibleText (hclean : Clean (visibleText mode markup))
    (hfew : highlights.length < indexBound)
    (hneutral : Undisturbed (inject mode markup highlights).placed (pieces mode markup)) :
    stripSentinels (visibleText mode (inject mode markup highlights).markup) =
      visibleText mode markup := by
  have hfits := fits_inject mode markup highlights
  have hindex : ∀ p ∈ (inject mode markup highlights).placed, p.index < indexBound := by
    intro p hp
    obtain ⟨i, hi⟩ := List.mem_iff_getElem?.mp hp
    have hlength := length_inject_le mode markup highlights
    have hlt := (List.getElem?_eq_some_iff.mp hi).1
    rw [hfits.index i p hi]
    omega
  have hsplit : ∀ front back, front ++ back = [] ++ pieces mode markup →
      rowAt (inject mode markup highlights).placed (sources front).byteLength ≠ [] →
      Neutral front back
        (rowAt (inject mode markup highlights).placed (sources front).byteLength) := by
    intro front back heq hne
    rw [List.nil_append] at heq
    have hle : front.length ≤ (pieces mode markup).length := by rw [← heq]; simp
    have hrow := hneutral front.length hle
    rw [← heq, List.take_left, List.drop_left] at hrow
    exact hrow hne
  have hsettled := @settled_jointsFrom (inject mode markup highlights).placed [] (pieces mode markup)
    (fun p hp => source_ne_nil_of_mem_pieces hp) hindex hfits hsplit
  refine Adorned.stripSentinels ?_ hclean
  have hmarkup : (inject mode markup highlights).markup = _ := splice_eq_toText _ 0 _
  rw [hmarkup]
  refine adorned_visibleText (map_jointsFrom _ _ _) hsettled (sentinelRow_rowAt hindex 0) ?_
  intro hne p hp hshown
  exact (hsplit [] _ rfl hne).layout p (by simpa using hp) hshown

/-- Sentinels beside a reference, white space and a line break. -/
theorem stripSentinels_visibleText_reference :
    let markup := "a&lt;b <br>c".toList
    let highlights : List Highlight :=
      [⟨"first", 1, 3, "", "", ⟨19723, 0, 0⟩, [], none⟩,
        ⟨"second", 3, 6, "", "", ⟨19723, 0, 0⟩, [], none⟩]
    Clean (visibleText .collapse markup) ∧ highlights.length < indexBound ∧
      Undisturbed (inject .collapse markup highlights).placed (pieces .collapse markup) ∧
      stripSentinels (visibleText .collapse (inject .collapse markup highlights).markup) =
        visibleText .collapse markup := by
  intro markup highlights
  have hclean : Clean (visibleText .collapse markup) := by
    intro kind
    cases kind <;> decide +kernel
  have hfew : highlights.length < indexBound := by decide
  have hneutral : Undisturbed (inject .collapse markup highlights).placed
      (pieces .collapse markup) := by decide +kernel
  exact ⟨hclean, hfew, hneutral, stripSentinels_visibleText hclean hfew hneutral⟩

/-- A bracket that shows itself begins a tag with the first letter of a sentinel. -/
theorem not_stripSentinels_visibleText : ¬ ∀ mode markup highlights, Clean markup →
    highlights.length < indexBound →
    stripSentinels (visibleText mode (inject mode markup highlights).markup) =
      visibleText mode markup := by
  intro h
  have hclean : Clean "x<".toList := by
    intro kind
    cases kind <;> decide
  have hstrip := h .collapse _ [⟨"h", 0, 2, "", "", ⟨19723, 0, 0⟩, [], none⟩] hclean (by decide)
  revert hstrip
  decide +kernel

end Injection

end Marginalia
