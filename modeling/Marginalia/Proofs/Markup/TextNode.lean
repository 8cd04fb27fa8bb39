import Marginalia.Proofs.Markup.Reference
import Marginalia.Proofs.Markup.Tag
import Marginalia.Proofs.Unit

/-! # Words in a text between tags

A text between tags is cut into pieces, and words are put in behind some of them.  Cut again, it
gives the same pieces with the letters of the words between them (`textPieces_toText`), provided
that no word goes into a reference and none stands in white space that only lays out the source.
The text also ends where it did: words that follow no opening bracket make no tag begin that did
not begin before (`Untagged.toText`).

Collapsing joins pieces, so words behind the joined pieces are words behind some of those that are
joined (`exists_atoms`).
-/
namespace Marginalia.Markup

open Text Piece

/-! ### Where the next tag begins -/

variable {text rest rest' s t word : Text}

/-- No tag begins in the text when `rest` follows. -/
def Untagged : Text → Text → Prop
  | [], _ => True
  | c :: text, rest => startsTag (c :: (text ++ rest)) = false ∧ Untagged text rest

theorem untagged_append :
    Untagged (s ++ t) rest ↔ Untagged s (t ++ rest) ∧ Untagged t rest := by
  induction s with
  | nil => exact ⟨fun h => ⟨trivial, h⟩, fun h => h.2⟩
  | cons c s ih => rw [List.cons_append, Untagged, Untagged, ih, List.append_assoc, and_assoc]

theorem Untagged.congr (h : Untagged text rest) (hhead : rest.head? = rest'.head?) :
    Untagged text rest' := by
  induction text with
  | nil => trivial
  | cons c text ih =>
    refine ⟨?_, ih h.2⟩
    have heq : (text ++ rest').head? = (text ++ rest).head? := by
      rw [List.head?_append, List.head?_append, hhead]
    rw [startsTag_congr heq]
    exact h.1

/-- What follows does not matter where the text does not end with an opening bracket. -/
theorem Untagged.of_getLast? (h : Untagged text rest) (hlast : text.getLast? ≠ some '<') :
    Untagged text rest' := by
  induction text with
  | nil => trivial
  | cons c text ih =>
    cases text with
    | nil => exact ⟨startsTag_of_ne fun hc => hlast (by rw [hc]; rfl), trivial⟩
    | cons d text =>
      rw [List.getLast?_cons_cons] at hlast
      have hhead : (d :: text ++ rest').head? = (d :: text ++ rest).head? := rfl
      refine ⟨?_, ih h.2 hlast⟩
      rw [startsTag_congr hhead]
      exact h.1

theorem untagged_word (h : ∀ c ∈ word, c.isAlphanum = true) : Untagged word rest := by
  induction word with
  | nil => trivial
  | cons c word ih =>
    refine ⟨startsTag_of_ne ?_, ih fun d hd => h d (List.mem_cons_of_mem c hd)⟩
    rintro rfl
    exact absurd (h _ List.mem_cons_self) (by decide)

/-- A text that ends where the next tag begins. -/
structure EndsAtTag (text rest : Text) : Prop where
  untagged : Untagged text rest
  ended : rest = [] ∨ startsTag rest = true

theorem endsAtTag_textRun (text : Text) : EndsAtTag (textRun text).1 (textRun text).2 := by
  induction text with
  | nil => exact ⟨trivial, .inl rfl⟩
  | cons c text ih =>
    rw [textRun]
    split
    · next h => exact ⟨trivial, .inr h⟩
    · next h =>
      refine ⟨⟨?_, ih.untagged⟩, ih.ended⟩
      rw [textRun_append]
      exact Bool.eq_false_iff.mpr h

theorem EndsAtTag.textRun (h : EndsAtTag text rest) :
    Markup.textRun (text ++ rest) = (text, rest) := by
  obtain ⟨huntagged, hended⟩ := h
  induction text with
  | nil =>
    rw [List.nil_append]
    cases rest with
    | nil => rfl
    | cons c rest =>
      have htag := hended.resolve_left (List.cons_ne_nil c rest)
      rw [Markup.textRun, if_pos htag]
  | cons c text ih =>
    rw [List.cons_append, Markup.textRun, huntagged.1, ih huntagged.2]
    rfl

theorem textPieces_nil (mode : Whitespace) : textPieces mode [] = [] := by
  cases mode <;> simp [textPieces, atoms, isLayout, collapse, blankPiece]

/-- A text between tags is cut on its own. -/
theorem EndsAtTag.pieces (h : EndsAtTag text rest) (mode : Whitespace) :
    Markup.pieces mode (text ++ rest) = textPieces mode text ++ Markup.pieces mode rest := by
  cases text with
  | nil => rw [textPieces_nil]; rfl
  | cons c text =>
    have hrun : Markup.textRun (text ++ rest) = (text, rest) :=
      EndsAtTag.textRun ⟨h.untagged.2, h.ended⟩
    have hcomment : "<!--".toList.isPrefixOf? (c :: (text ++ rest)) = none := by
      refine isPrefixOf?_eq_none ?_
      rintro ⟨tail, htail⟩
      have htag := h.untagged.1
      rw [← htail] at htag
      cases htag
    rw [List.cons_append, Markup.pieces, firstPieces, hcomment]
    dsimp only
    rw [h.untagged.1, hrun]
    rfl

/-- A text begins with a tag or goes on to the next one. -/
theorem startsTag_or_endsAtTag (text : Text) : startsTag text = true ∨
    ∃ front rest, text = front ++ rest ∧ (front = [] → text = []) ∧ EndsAtTag front rest := by
  by_cases h : startsTag text = true
  · exact .inl h
  · refine .inr ⟨_, _, (textRun_append text).symm, fun hnil => ?_, endsAtTag_textRun text⟩
    cases text with
    | nil => rfl
    | cons c text =>
      rw [Markup.textRun, if_neg h] at hnil
      cases hnil

/-! ### Pieces with words between them -/

/-- Pieces, each with the word that is put in behind it. -/
abbrev Joints := List (Piece × Text)

/-- The letters of a word as pieces. -/
def letters (word : Text) : List Piece :=
  word.map fun c => ⟨[c], [c]⟩

namespace Joints

/-- The text that pieces and words make up. -/
def toText (joints : Joints) : Text :=
  joints.flatMap fun (piece, word) => piece.source ++ word

/-- The pieces, with words letter by letter. -/
def spelled (joints : Joints) : List Piece :=
  joints.flatMap fun (piece, word) => piece :: letters word

/-- The words leave references as they are; `front` is the text before the pieces, without words. -/
def Clear (front : Text) : Joints → Prop
  | [] => True
  | (piece, word) :: joints =>
    (word ≠ [] → SentinelWord word ∧
      (word.head? = some 'H' → ¬ "&ET".toList <:+ front ++ piece.source)) ∧
      Clear (front ++ piece.source) joints

variable {joints joints' : Joints} {piece : Piece} {front : Text}

@[simp] theorem toText_nil : toText [] = [] := rfl

@[simp] theorem spelled_nil : spelled [] = [] := rfl

@[simp] theorem toText_cons : toText ((piece, word) :: joints) =
    piece.source ++ (word ++ toText joints) := by
  rw [toText, List.flatMap_cons, List.append_assoc]
  rfl

@[simp] theorem spelled_cons : spelled ((piece, word) :: joints) =
    piece :: (letters word ++ spelled joints) := rfl

@[simp] theorem toText_append : toText (joints ++ joints') = toText joints ++ toText joints' :=
  List.flatMap_append

@[simp] theorem spelled_append : spelled (joints ++ joints') = spelled joints ++ spelled joints' :=
  List.flatMap_append

theorem clear_append : Clear front (joints ++ joints') ↔
    Clear front joints ∧ Clear (front ++ sources (joints.map Prod.fst)) joints' := by
  induction joints generalizing front with
  | nil => simp [Clear]
  | cons joint joints ih =>
    obtain ⟨piece, word⟩ := joint
    rw [List.cons_append, Clear, Clear, ih, List.map_cons, sources_cons, List.append_assoc, and_assoc]

theorem alnum_of_word (h : word ≠ [] → SentinelWord word) : ∀ c ∈ word, c.isAlphanum = true :=
  fun c hc => (h (List.ne_nil_of_mem hc)).alnum c hc

theorem Clear.alnum (h : Clear front joints) : ∀ joint ∈ joints, ∀ c ∈ joint.2,
    c.isAlphanum = true := by
  induction joints generalizing front with
  | nil => simp
  | cons joint joints ih =>
    exact List.forall_mem_cons.mpr ⟨alnum_of_word fun hne => (h.1 hne).1, ih h.2⟩

theorem toText_of_no_words (h : ∀ joint ∈ joints, joint.2 = []) :
    joints.toText = sources (joints.map Prod.fst) := by
  induction joints with
  | nil => rfl
  | cons joint joints ih =>
    obtain ⟨hword, hrest⟩ := List.forall_mem_cons.mp h
    obtain ⟨piece, word⟩ := joint
    obtain rfl : word = [] := hword
    rw [toText_cons, ih hrest]
    rfl

theorem spelled_of_no_words (h : ∀ joint ∈ joints, joint.2 = []) :
    joints.spelled = joints.map Prod.fst := by
  induction joints with
  | nil => rfl
  | cons joint joints ih =>
    obtain ⟨hword, hrest⟩ := List.forall_mem_cons.mp h
    obtain ⟨piece, word⟩ := joint
    obtain rfl : word = [] := hword
    rw [spelled_cons, ih hrest]
    rfl

end Joints

open Joints

variable {joints : Joints} {front : Text}

/-! ### Words between atoms -/

/-- Without an ampersand every character is an atom. -/
theorem atoms_plain (h : '&' ∉ word) (text : Text) :
    atoms (word ++ text) = letters word ++ atoms text := by
  induction word with
  | nil => rfl
  | cons c word ih =>
    have hc : c ≠ '&' := (List.ne_of_not_mem_cons h).symm
    rw [List.cons_append, atoms, if_neg hc, ih (List.not_mem_of_not_mem_cons h)]
    rfl

theorem atoms_word (h : ∀ c ∈ word, c.isAlphanum = true) (text : Text) :
    atoms (word ++ text) = letters word ++ atoms text :=
  atoms_plain (fun hmem => absurd (h _ hmem) (by decide)) text

/-- A reference is read the same with a word right behind it, or right behind text that is none. -/
theorem read?_word (hword : SentinelWord word)
    (hfront : word.head? = some 'H' → ¬ "&ET".toList <:+ front ++ '&' :: s)
    (hlength : ∀ reference ∈ Reference.read? (s ++ rest), reference.length ≤ s.length) :
    Reference.read? (s ++ (word ++ rest')) = Reference.read? (s ++ rest) := by
  refine Reference.read?_append_word hword ?_ hlength
  rintro ⟨rfl, hhead⟩
  exact hfront hhead (List.suffix_append _ _)

/-- A reference is read the same with words in the text behind it, or behind the ampersand where there
is none. -/
theorem read?_toText (hword : word ≠ [] → SentinelWord word ∧
      (word.head? = some 'H' → ¬ "&ET".toList <:+ front ++ '&' :: s))
    (hclear : Clear (front ++ '&' :: s) joints)
    (hlength : ∀ reference ∈ Reference.read? (s ++ sources (joints.map Prod.fst)),
      reference.length ≤ s.length) :
    Reference.read? (s ++ (word ++ joints.toText)) =
      Reference.read? (s ++ sources (joints.map Prod.fst)) := by
  induction joints generalizing s word with
  | nil =>
    by_cases hne : word = []
    · rw [hne]
      rfl
    · exact read?_word (hword hne).1 (hword hne).2 hlength
  | cons joint joints ih =>
    by_cases hne : word = []
    · -- Where no word stands, the next piece goes to the front.
      obtain ⟨piece, next⟩ := joint
      obtain ⟨hnext, hclear⟩ := hclear
      rw [List.append_assoc, List.cons_append] at hnext hclear
      have hlength' : ∀ reference ∈ Reference.read? (s ++ piece.source ++
          sources (joints.map Prod.fst)), reference.length ≤ (s ++ piece.source).length := by
        intro reference hreference
        rw [List.append_assoc] at hreference
        rw [List.length_append]
        exact Nat.le_add_right_of_le (hlength reference hreference)
      have hsame := ih hnext hclear hlength'
      rw [hne, toText_cons, List.map_cons, sources_cons, List.nil_append, ← List.append_assoc s,
        ← List.append_assoc s]
      exact hsame
    · exact read?_word (hword hne).1 (hword hne).2 hlength

/-- The atoms of a text with words between some of them. -/
theorem atoms_toText (h : joints.map Prod.fst = atoms text) (hclear : Clear front joints) :
    atoms joints.toText = joints.spelled := by
  induction joints generalizing text front with
  | nil => simp [Joints.toText, Joints.spelled, atoms]
  | cons joint joints ih =>
    obtain ⟨piece, word⟩ := joint
    obtain ⟨hword, hclear⟩ := hclear
    have halnum := alnum_of_word fun hne => (hword hne).1
    cases text with
    | nil => simp [atoms] at h
    | cons c text =>
      rw [atoms] at h
      split at h
      · next reference hread =>
        obtain ⟨rfl, hatoms⟩ := List.cons.inj h
        split at hread
        · next hc =>
          subst hc
          have hrest : sources (joints.map Prod.fst) = text.drop reference.length := by
            rw [hatoms, sources_atoms]
          have hlength : (text.take reference.length).length = reference.length :=
            List.length_take_of_le (Reference.length_of_read? hread).2
          -- A word behind the reference does not change how it is read.
          have hread' : Reference.read?
              (text.take reference.length ++ (word ++ Joints.toText joints)) = some reference := by
            have hsame := read?_toText hword hclear
            rw [hrest, List.take_append_drop, hread] at hsame
            exact hsame fun _ heq => Option.some.inj heq ▸ Nat.le_of_eq hlength.symm
          rw [toText_cons, spelled_cons, List.cons_append, atoms, if_pos rfl, hread']
          dsimp only
          rw [List.take_left' hlength, List.drop_left' hlength, atoms_word halnum, ih hatoms hclear]
        · cases hread
      · next hread =>
        obtain ⟨rfl, hatoms⟩ := List.cons.inj h
        -- Nor does a word make a reference of an ampersand that begins none.
        have hread' :
            (if c = '&' then Reference.read? (word ++ Joints.toText joints) else none) = none := by
          split
          · next hc =>
            subst hc
            rw [if_pos rfl] at hread
            have hsame := @read?_toText [] word joints front hword hclear
            simp only [List.nil_append] at hsame
            rw [hatoms, sources_atoms, hread] at hsame
            exact hsame fun _ heq => by cases heq
          · rfl
        rw [toText_cons, spelled_cons, List.singleton_append, atoms, hread']
        dsimp only
        rw [atoms_word halnum, ih hatoms hclear]

/-! ### Words between collapsed pieces -/

/-- A letter or a digit is no white space. -/
theorem isMarkupBlank_of_isAlphanum {c : Char} (h : c.isAlphanum = true) :
    isMarkupBlank c = false := by
  rw [Bool.eq_false_iff]
  intro hblank
  simp only [isMarkupBlank, Bool.or_eq_true, beq_iff_eq] at hblank
  rcases hblank with (((rfl | rfl) | rfl) | rfl) | rfl <;> exact absurd h (by decide)

theorem isBlank_letter {c : Char} (h : c.isAlphanum = true) : Piece.isBlank ⟨[c], [c]⟩ = false :=
  isMarkupBlank_of_isAlphanum h

theorem collapse_cons (run : Text) {piece : Piece} (h : piece.isBlank = false)
    (pieces : List Piece) :
    collapse run (piece :: pieces) = blankPiece run ++ piece :: collapse [] pieces := by
  rw [collapse, h]
  rfl

theorem collapse_letters (h : ∀ c ∈ word, c.isAlphanum = true) (pieces : List Piece) :
    collapse [] (letters word ++ pieces) = letters word ++ collapse [] pieces := by
  induction word with
  | nil => rfl
  | cons c word ih =>
    have hc := isBlank_letter (h c List.mem_cons_self)
    have htail := ih fun d hd => h d (List.mem_cons_of_mem c hd)
    rw [letters, List.map_cons, List.cons_append, collapse_cons [] hc]
    exact congrArg (fun ps => ⟨[c], [c]⟩ :: ps) htail

/-- A run of white space ends with the word or before what follows it. -/
theorem collapse_run (run : Text) (h : ∀ c ∈ word, c.isAlphanum = true) {pieces : List Piece}
    (hpieces : ∀ p ∈ pieces.head?, p.isBlank = false) :
    collapse run (letters word ++ pieces) = blankPiece run ++ letters word ++ collapse [] pieces := by
  cases word with
  | nil =>
    cases pieces with
    | nil => simp [letters, collapse, blankPiece]
    | cons piece pieces =>
      have hpiece := hpieces piece rfl
      simp [letters, collapse_cons _ hpiece, blankPiece]
  | cons c word =>
    have hc := isBlank_letter (h c List.mem_cons_self)
    have htail := collapse_letters (fun d hd => h d (List.mem_cons_of_mem c hd)) pieces
    rw [letters, List.map_cons, List.cons_append, collapse_cons run hc, List.append_assoc]
    exact congrArg (fun ps => blankPiece run ++ ⟨[c], [c]⟩ :: ps) htail

theorem collapse_blanks (run : Text) {blanks : List Piece} (h : ∀ p ∈ blanks, p.isBlank = true)
    (pieces : List Piece) :
    collapse run (blanks ++ pieces) = collapse (run ++ sources blanks) pieces := by
  induction blanks generalizing run with
  | nil => simp
  | cons piece blanks ih =>
    obtain ⟨hpiece, hblanks⟩ := List.forall_mem_cons.mp h
    rw [List.cons_append, collapse, if_pos hpiece, ih _ hblanks, sources_cons, List.append_assoc]

/-- Pieces with a word behind the last of them. -/
def joined (word : Text) : List Piece → Joints
  | [] => []
  | piece :: pieces => (piece, if pieces.isEmpty then word else []) :: joined word pieces

section Joined

variable {pieces : List Piece}

theorem map_joined (word : Text) (pieces : List Piece) :
    (joined word pieces).map Prod.fst = pieces := by
  induction pieces with
  | nil => rfl
  | cons piece pieces ih => rw [joined, List.map_cons, ih]

theorem toText_joined (h : pieces ≠ []) : (joined word pieces).toText = sources pieces ++ word := by
  induction pieces with
  | nil => exact absurd rfl h
  | cons piece pieces ih =>
    cases pieces with
    | nil => simp [joined, Joints.toText]
    | cons next pieces =>
      rw [joined, toText_cons, ih (List.cons_ne_nil _ _)]
      simp

theorem spelled_joined (h : pieces ≠ []) :
    (joined word pieces).spelled = pieces ++ letters word := by
  induction pieces with
  | nil => exact absurd rfl h
  | cons piece pieces ih =>
    cases pieces with
    | nil => simp [joined, Joints.spelled]
    | cons next pieces =>
      rw [joined, spelled_cons, ih (List.cons_ne_nil _ _)]
      rfl

/-- The word stands behind the same text. -/
theorem clear_joined (hne : pieces ≠ []) {shown : Text}
    (h : Clear front [(⟨sources pieces, shown⟩, word)]) : Clear front (joined word pieces) := by
  induction pieces generalizing front with
  | nil => exact absurd rfl hne
  | cons piece pieces ih =>
    cases pieces with
    | nil => simpa [joined, Clear] using h
    | cons next pieces =>
      refine ⟨fun hword => absurd rfl hword, ih (List.cons_ne_nil _ _) ?_⟩
      rw [sources_cons] at h
      simpa [Clear] using h

end Joined

/-- A word behind a collapsed run of white space is a word behind the run. -/
theorem exists_blanks {blanks : List Piece} (hblank : ∀ p ∈ blanks, p.isBlank = true)
    (hsource : ∀ p ∈ blanks, p.source ≠ [])
    (h : joints.map Prod.fst = blankPiece (sources blanks))
    (hwords : ∀ joint ∈ joints, ∀ c ∈ joint.2, c.isAlphanum = true) :
    ∃ joints' : Joints, joints'.map Prod.fst = blanks ∧ joints'.toText = joints.toText ∧
      (∀ front, Clear front joints → Clear front joints') ∧
      ∀ pieces : List Piece, (∀ p ∈ pieces.head?, p.isBlank = false) →
        collapse [] (joints'.spelled ++ pieces) = joints.spelled ++ collapse [] pieces := by
  by_cases hnil : blanks = []
  · subst hnil
    obtain rfl : joints = [] := List.map_eq_nil_iff.mp h
    exact ⟨[], rfl, rfl, fun _ hclear => hclear, fun _ _ => rfl⟩
  · have hrun : sources blanks ≠ [] := by
      obtain ⟨piece, hpiece⟩ := List.exists_mem_of_ne_nil blanks hnil
      intro hempty
      exact hsource piece hpiece (List.flatMap_eq_nil_iff.mp hempty piece hpiece)
    rw [blankPiece, if_neg (by simpa using hrun)] at h
    obtain ⟨⟨piece, word⟩, rfl, rfl⟩ := List.map_eq_singleton_iff.mp h
    have halnum : ∀ c ∈ word, c.isAlphanum = true := hwords _ List.mem_cons_self
    refine ⟨joined word blanks, map_joined word blanks, ?_, fun front => clear_joined hnil, ?_⟩
    · rw [toText_joined hnil]
      simp [Joints.toText]
    · intro pieces hpieces
      rw [spelled_joined hnil, List.append_assoc, collapse_blanks [] hblank, List.nil_append,
        collapse_run _ halnum hpieces, blankPiece, if_neg (by simpa using hrun)]
      simp [Joints.spelled]

/-- Words between collapsed pieces are words between some of the pieces that are collapsed. -/
theorem exists_atoms {blanks pieces : List Piece} (hblank : ∀ p ∈ blanks, p.isBlank = true)
    (hsource : ∀ p ∈ blanks ++ pieces, p.source ≠ [])
    (h : joints.map Prod.fst = collapse (sources blanks) pieces)
    (hwords : ∀ joint ∈ joints, ∀ c ∈ joint.2, c.isAlphanum = true) :
    ∃ joints' : Joints, joints'.map Prod.fst = blanks ++ pieces ∧
      joints'.toText = joints.toText ∧ (∀ front, Clear front joints → Clear front joints') ∧
      collapse [] joints'.spelled = joints.spelled := by
  induction pieces generalizing blanks joints with
  | nil =>
    rw [List.append_nil] at hsource ⊢
    obtain ⟨joints', hmap, htext, hclear, hspelled⟩ := exists_blanks hblank hsource h hwords
    refine ⟨joints', hmap, htext, hclear, ?_⟩
    simpa [collapse, blankPiece] using hspelled [] (by simp)
  | cons piece pieces ih =>
    by_cases hpiece : piece.isBlank = true
    · have hblank' : ∀ p ∈ blanks ++ [piece], p.isBlank = true :=
        List.forall_mem_append.mpr ⟨hblank, by simpa using hpiece⟩
      rw [List.append_cons] at hsource ⊢
      rw [collapse, if_pos hpiece] at h
      refine ih hblank' hsource ?_ hwords
      rw [h]
      simp
    · -- The run ends before this piece; the words before and behind it are apart.
      rw [Bool.not_eq_true] at hpiece
      rw [collapse_cons _ hpiece] at h
      obtain ⟨front, rest, rfl, hfront, hrest⟩ := List.map_eq_append_iff.mp h
      obtain ⟨⟨piece', word⟩, back, rfl, rfl, hback⟩ := List.map_eq_cons_iff.mp hrest
      obtain ⟨hsource₁, hsource₂⟩ := List.forall_mem_append.mp hsource
      obtain ⟨hwords₁, hwords₂⟩ := List.forall_mem_append.mp hwords
      obtain ⟨halnum, hwords₂⟩ := List.forall_mem_cons.mp hwords₂
      obtain ⟨joints₁, hmap₁, htext₁, hclear₁, hspelled₁⟩ :=
        exists_blanks hblank hsource₁ hfront hwords₁
      obtain ⟨joints₂, hmap₂, htext₂, hclear₂, hspelled₂⟩ :=
        @ih back [] (by simp) (List.forall_mem_cons.mp hsource₂).2 hback hwords₂
      refine ⟨joints₁ ++ (piece', word) :: joints₂, ?_, ?_, ?_, ?_⟩
      · rw [List.map_append, List.map_cons, hmap₁, hmap₂]
        rfl
      · rw [toText_append, toText_append, toText_cons, toText_cons, htext₁, htext₂]
      · intro front' hclear
        rw [clear_append] at hclear ⊢
        obtain ⟨hclear, hword, hrest⟩ := hclear
        refine ⟨hclear₁ _ hclear, ?_⟩
        have hsources : sources (joints₁.map Prod.fst) = sources (front.map Prod.fst) := by
          rw [hmap₁, hfront, sources_blankPiece]
        rw [hsources]
        exact ⟨hword, hclear₂ _ hrest⟩
      · have hhead : ∀ p ∈ (spelled ((piece', word) :: joints₂)).head?, p.isBlank = false := by
          simpa using hpiece
        rw [spelled_append, spelled_append, hspelled₁ _ hhead, spelled_cons, spelled_cons,
          collapse_cons [] hpiece, collapse_letters halnum, hspelled₂]
        rfl

/-! ### Texts between tags -/

theorem words_eq_nil (h : ∀ c ∈ joints.toText, isMarkupBlank c = true)
    (hwords : ∀ joint ∈ joints, ∀ c ∈ joint.2, c.isAlphanum = true) :
    ∀ joint ∈ joints, joint.2 = [] := by
  intro joint hjoint
  rw [List.eq_nil_iff_forall_not_mem]
  intro c hc
  have hmem : c ∈ joints.toText :=
    List.mem_flatMap.mpr ⟨joint, hjoint, List.mem_append_right _ hc⟩
  have hblank := h c hmem
  rw [isMarkupBlank_of_isAlphanum (hwords joint hjoint c hc)] at hblank
  cases hblank

/-- **Words in a text between tags.**  The text is cut as it was, if words do not stand in a text that
only lays out the source. -/
theorem textPieces_toText {mode : Whitespace} (h : joints.map Prod.fst = textPieces mode text)
    (hclear : Clear front joints) (hword : word ≠ [] → SentinelWord word)
    (hlayout : isLayout text = true → mode = .collapse →
      word = [] ∧ ∀ joint ∈ joints, joint.2 = []) :
    textPieces mode (word ++ joints.toText) = letters word ++ joints.spelled := by
  have halnum := alnum_of_word hword
  cases mode with
  | preserve => rw [textPieces, atoms_word halnum, atoms_toText h hclear]
  | collapse =>
    have hempty (hnone : ∀ joint ∈ joints, joint.2 = []) : joints.toText = text := by
      rw [toText_of_no_words hnone, h, sources_textPieces]
    by_cases hlaid : isLayout text = true
    · obtain ⟨rfl, hnone⟩ := hlayout hlaid rfl
      rw [List.nil_append, hempty hnone, ← h, spelled_of_no_words hnone]
      rfl
    · -- If the text only laid out the source with words in it, there would be no words.
      have hlaid' : ¬ isLayout (word ++ joints.toText) = true := by
        intro hblank
        have hall : ∀ c ∈ word ++ joints.toText, isMarkupBlank c = true :=
          List.all_eq_true.mp (Bool.and_eq_true_iff.mp hblank).2
        obtain ⟨hall₁, hall₂⟩ := List.forall_mem_append.mp hall
        have hnil : word = [] := by
          rw [List.eq_nil_iff_forall_not_mem]
          intro c hc
          have hc' := hall₁ c hc
          rw [isMarkupBlank_of_isAlphanum (halnum c hc)] at hc'
          cases hc'
        rw [hnil, List.nil_append, hempty (words_eq_nil hall₂ hclear.alnum)] at hblank
        exact hlaid hblank
      rw [textPieces, if_neg hlaid] at h
      have hsource : ∀ p ∈ [] ++ atoms text, p.source ≠ [] := fun p => source_ne_nil_of_mem_atoms
      obtain ⟨joints', hmap, htext, hclear', hspelled⟩ :=
        exists_atoms (by simp) hsource h hclear.alnum
      rw [textPieces, if_neg hlaid', ← htext, atoms_word halnum, atoms_toText hmap (hclear' _ hclear),
        collapse_letters halnum, hspelled]

/-- No tag begins in a text because of the words in it, if none of them follows an opening bracket. -/
theorem Untagged.toText (h : Untagged (sources (joints.map Prod.fst)) rest)
    (hhead : rest.head? = rest'.head?) (hsource : ∀ joint ∈ joints, joint.1.source ≠ [])
    (hwords : ∀ joint ∈ joints, joint.2 ≠ [] →
      joint.1.source.getLast? ≠ some '<' ∧ ∀ c ∈ joint.2, c.isAlphanum = true) :
    Untagged joints.toText rest' ∧
      (sources (joints.map Prod.fst) ++ rest).head? = (joints.toText ++ rest').head? := by
  induction joints with
  | nil => exact ⟨trivial, hhead⟩
  | cons joint joints ih =>
    obtain ⟨piece, word⟩ := joint
    obtain ⟨hne, hsource⟩ := List.forall_mem_cons.mp hsource
    obtain ⟨hword, hwords⟩ := List.forall_mem_cons.mp hwords
    rw [List.map_cons, sources_cons, untagged_append] at h
    obtain ⟨hrest, hheads⟩ := ih h.2 hsource hwords
    rw [toText_cons, List.map_cons, sources_cons]
    refine ⟨untagged_append.mpr ⟨?_, untagged_append.mpr ⟨?_, hrest⟩⟩, ?_⟩
    · by_cases hnil : word = []
      · rw [hnil]
        exact h.1.congr hheads
      · exact h.1.of_getLast? (hword hnil).1
    · by_cases hnil : word = []
      · rw [hnil]
        trivial
      · exact untagged_word (hword hnil).2
    · rw [List.append_assoc, List.append_assoc, List.head?_append_of_ne_nil _ hne,
        List.head?_append_of_ne_nil _ hne]

/-! ### What is visible -/

variable {mode : Whitespace}

theorem sources_letters (word : Text) : sources (letters word) = word := by
  induction word with
  | nil => rfl
  | cons c word ih => exact congrArg (c :: ·) ih

theorem shownText_letters (word : Text) : shownText (letters word) = word := by
  simp [shownText, letters, List.flatMap_map]

theorem shownText_append (ps qs : List Piece) : shownText (ps ++ qs) = shownText ps ++ shownText qs :=
  List.flatMap_append

theorem visibleText_nil (mode : Whitespace) : visibleText mode [] = [] := by
  rw [visibleText, pieces]
  rfl

theorem visibleText_of_startsTag (htag : startsTag text = true) : visibleText mode text =
    (markupPiece text).1.shown ++ visibleText mode (markupPiece text).2 := by
  rw [visibleText, pieces_of_startsTag mode htag]
  rfl

/-- Words between pieces leave the first character as it is. -/
theorem toText_of_ended (hended : rest = [] ∨ startsTag rest = true)
    (hjoints : joints.map Prod.fst = pieces mode rest) :
    (joints.toText = [] ∨ startsTag joints.toText = true) ∧ rest.head? = joints.toText.head? := by
  rcases hended with rfl | htag
  · rw [pieces, List.map_eq_nil_iff] at hjoints
    rw [hjoints]
    exact ⟨.inl rfl, rfl⟩
  · rw [pieces_of_startsTag mode htag] at hjoints
    obtain ⟨⟨piece, next⟩, joints, rfl, rfl, -⟩ := List.map_eq_cons_iff.mp hjoints
    have hstarts := startsTag_append (startsTag_markupPiece htag) (next ++ Joints.toText joints)
    rw [toText_cons]
    exact ⟨.inr hstarts, (head?_of_startsTag htag).trans (head?_of_startsTag hstarts).symm⟩

end Marginalia.Markup
