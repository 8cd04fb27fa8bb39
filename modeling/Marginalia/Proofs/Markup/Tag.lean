import Marginalia.Markup.Piece
import Marginalia.Proofs.Text
import Mathlib.Data.List.Basic

/-! # Tags and comments on their own

Where a tag or a comment ends is decided by its own characters: followed by something, it is read the
same whatever follows (`markupPiece_append_rest`).  Only what comes last may be open.  A tag that is
open takes in the letters and digits that are put behind it, but it shows what it showed, if its name
does not grow (`markupPiece_append_word`).
-/
namespace Marginalia.Markup

open Text

/-! ### Bodies of tags -/

variable {quote : Option Char} {text name word : Text}

/-- A body that is closed is read the same whatever follows. -/
theorem tagBody_append_rest (h : (tagBody quote text).2 ≠ []) (rest : Text) :
    tagBody quote ((tagBody quote text).1 ++ rest) = ((tagBody quote text).1, rest) := by
  induction text generalizing quote with
  | nil => exact absurd rfl h
  | cons c text ih =>
    cases quote with
    | some q =>
      simp only [tagBody] at h ⊢
      rw [List.cons_append, tagBody, ih h]
    | none =>
      by_cases hc : c = '>'
      · simp [tagBody, hc]
      · simp only [tagBody, hc, if_false] at h ⊢
        rw [List.cons_append, tagBody, if_neg hc, ih h]

theorem tagBody_word (quote : Option Char) (hword : ∀ c ∈ word, c.isAlphanum = true) :
    tagBody quote word = (word, []) := by
  induction word generalizing quote with
  | nil => rfl
  | cons c word ih =>
    have hrest := fun quote => @ih quote fun d hd => hword d (List.mem_cons_of_mem c hd)
    have hc : c ≠ '>' := by
      rintro rfl
      exact absurd (hword _ List.mem_cons_self) (by decide)
    cases quote with
    | some q => rw [tagBody, hrest]
    | none => rw [tagBody, if_neg hc, hrest]

/-- A body that reaches the end of the text takes in letters and digits unless it is closed. -/
theorem tagBody_append_word (h : (tagBody quote text).2 = [])
    (hword : ∀ c ∈ word, c.isAlphanum = true) :
    (tagBody quote (text ++ word)).2 = [] ∨ (tagBody quote (text ++ word)).2 = word := by
  induction text generalizing quote with
  | nil => exact .inl (by rw [List.nil_append, tagBody_word quote hword])
  | cons c text ih =>
    rw [List.cons_append]
    cases quote with
    | some q =>
      simp only [tagBody] at h ⊢
      exact ih h
    | none =>
      by_cases hc : c = '>'
      · simp only [tagBody, hc, if_true] at h ⊢
        exact .inr (by rw [h, List.nil_append])
      · simp only [tagBody, hc, if_false] at h ⊢
        exact ih h

/-- A body that is closed holds a closing bracket. -/
theorem mem_tagBody (h : (tagBody quote text).2 ≠ []) : '>' ∈ (tagBody quote text).1 := by
  induction text generalizing quote with
  | nil => exact absurd rfl h
  | cons c text ih =>
    cases quote with
    | some q =>
      simp only [tagBody] at h ⊢
      exact List.mem_cons_of_mem c (ih h)
    | none =>
      by_cases hc : c = '>'
      · simp [tagBody, hc]
      · simp only [tagBody, hc, if_false] at h ⊢
        exact List.mem_cons_of_mem c (ih h)

theorem length_tagBody_lt (h : text ≠ []) : (tagBody quote text).2.length < text.length := by
  cases text with
  | nil => exact absurd rfl h
  | cons c text =>
    have hle (quote : Option Char) : (tagBody quote text).2.length ≤ text.length := by
      have hlength := congrArg List.length (tagBody_append quote text)
      rw [List.length_append] at hlength
      omega
    rw [List.length_cons, Nat.lt_succ_iff]
    cases quote with
    | some q => exact hle _
    | none =>
      simp only [tagBody]
      split
      · exact Nat.le_refl _
      · exact hle _

/-! ### Tags -/

/-- What follows the name of a tag. -/
def afterName (text : Text) : Text :=
  (tagHead text).2.dropWhile isNameChar

/-- The slash and the name of a tag. -/
def tagFront (text : Text) : Text :=
  (tagHead text).1 ++ (tagHead text).2.takeWhile isNameChar

theorem tagFront_append_afterName (text : Text) : tagFront text ++ afterName text = text := by
  rw [tagFront, afterName, List.append_assoc, List.takeWhile_append_dropWhile, tagHead_append]

theorem tagHead_append_of_head? {rest : Text} (h : rest.head? = (tagHead text).2.head?) :
    tagHead ((tagHead text).1 ++ rest) = ((tagHead text).1, rest) := by
  have hcases : (∃ after, text = '/' :: after) ∨ ∀ after, text ≠ '/' :: after := by
    by_cases h : ∃ after, text = '/' :: after
    · exact .inl h
    · exact .inr fun after heq => h ⟨after, heq⟩
  rcases hcases with ⟨after, rfl⟩ | hne
  · rfl
  · rw [tagHead.eq_2 text hne] at h ⊢
    have hne' : ∀ after, rest ≠ '/' :: after := by
      rintro after rfl
      obtain ⟨tail, htail⟩ := List.head?_eq_some_iff.mp h.symm
      exact hne tail htail
    exact tagHead.eq_2 rest hne'

/-- A tag is read by its slash, its name and its body, whatever the body is, if it begins the same. -/
theorem readTag_append_of_head? {rest : Text} (h : rest.head? = (afterName text).head?) :
    readTag (tagFront text ++ rest) =
      (⟨(readTag text).1.name, (readTag text).1.isClosing,
        '<' :: (tagFront text ++ (tagBody none rest).1)⟩, (tagBody none rest).2) := by
  have hstops : Stops isNameChar rest := by
    rw [Stops, h]
    exact stops_dropWhile _ _
  have hname : ∀ c ∈ (tagHead text).2.takeWhile isNameChar, isNameChar c = true :=
    fun c hc => List.all_eq_true.mp List.all_takeWhile c hc
  have hhead : ((tagHead text).2.takeWhile isNameChar ++ rest).head? = (tagHead text).2.head? := by
    conv => rhs; rw [← @List.takeWhile_append_dropWhile _ isNameChar (tagHead text).2]
    rw [List.head?_append, List.head?_append, h]
    rfl
  obtain ⟨htake, hdrop⟩ := takeWhile_append_stop hname hstops
  rw [tagFront, List.append_assoc, readTag, tagHead_append_of_head? hhead]
  simp only [htake, hdrop]
  rfl

theorem readTag_eq (text : Text) : readTag text =
    (⟨(readTag text).1.name, (readTag text).1.isClosing,
      '<' :: (tagFront text ++ (tagBody none (afterName text)).1)⟩,
      (tagBody none (afterName text)).2) := rfl

/-- A tag that is followed by something is read the same whatever follows. -/
theorem readTag_append_rest (h : (readTag text).2 ≠ []) (rest : Text) :
    readTag ((readTag text).1.source.tail ++ rest) = ((readTag text).1, rest) := by
  have hbody : (tagBody none (afterName text)).1 ≠ [] :=
    List.ne_nil_of_mem (mem_tagBody h)
  have hhead : ((tagBody none (afterName text)).1 ++ rest).head? = (afterName text).head? := by
    conv => rhs; rw [← tagBody_append none (afterName text)]
    rw [List.head?_append_of_ne_nil _ hbody, List.head?_append_of_ne_nil _ hbody]
  have hclosed : (tagBody none (afterName text)).2 ≠ [] := h
  have hread := readTag_append_of_head? hhead
  rw [tagBody_append_rest hclosed rest, ← List.append_assoc] at hread
  exact hread

/-- Letters and digits behind a tag at the end of the text leave its name as it is, unless they go on
with it. -/
theorem readTag_append_word (hend : (readTag text).2 = []) (hname : afterName text ≠ [])
    (hword : ∀ c ∈ word, c.isAlphanum = true) :
    (readTag (text ++ word)).1.name = (readTag text).1.name ∧
      (readTag (text ++ word)).1.isClosing = (readTag text).1.isClosing ∧
      ((readTag (text ++ word)).2 = [] ∨ (readTag (text ++ word)).2 = word) := by
  have hhead : (afterName text ++ word).head? = (afterName text).head? :=
    List.head?_append_of_ne_nil _ hname
  have hread := readTag_append_of_head? hhead
  rw [← List.append_assoc, tagFront_append_afterName] at hread
  rw [hread]
  exact ⟨rfl, rfl, tagBody_append_word hend hword⟩

/-- Something is always read. -/
theorem length_readTag_lt (h : text ≠ []) : (readTag text).2.length < text.length := by
  by_cases hafter : afterName text = []
  · rw [readTag_eq, hafter]
    exact List.length_pos_iff.mpr h
  · have hlength := congrArg List.length (tagFront_append_afterName text)
    rw [List.length_append] at hlength
    have hle : (afterName text).length ≤ text.length := by omega
    exact Nat.lt_of_lt_of_le (length_tagBody_lt hafter) hle

/-! ### Hidden elements -/

theorem toLower_cases (c : Char) : c.toLower = c ∨ c.isUpper = true := by
  unfold Char.toLower
  split
  · next hrange => exact .inr (decide_eq_true hrange)
  · exact .inl rfl

theorem isAlpha_of_toLower {c : Char} (h : c.toLower.isAlpha = true) : c.isAlpha = true := by
  rcases toLower_cases c with hsame | hupper
  · rwa [hsame] at h
  · exact Bool.or_eq_true_iff.mpr (.inl hupper)

theorem isAlphanum_of_toLower {c : Char} (h : c.toLower.isAlphanum = true) :
    c.isAlphanum = true := by
  rcases toLower_cases c with hsame | hupper
  · rwa [hsame] at h
  · exact Bool.or_eq_true_iff.mpr (.inl (Bool.or_eq_true_iff.mpr (.inl hupper)))

theorem closesElement_iff : closesElement name text = true ↔ ∃ after, text = '<' :: '/' :: after ∧
    (after.take name.length).map Char.toLower = name ∧
      (after[name.length]?).any Char.isAlphanum = false := by
  unfold closesElement
  split
  · next after =>
    rw [Bool.and_eq_true, beq_iff_eq, Bool.not_eq_true']
    simp
  · next hne => 
    simp only [Bool.false_eq_true, false_iff]
    rintro ⟨after, rfl, -⟩
    exact hne after rfl

/-- Whether an element is closed shows in the characters up to the one after its name. -/
theorem closesElement_congr {text' : Text}
    (h : text.take (name.length + 3) = text'.take (name.length + 3)) :
    closesElement name text = closesElement name text' := by
  have himp {s t : Text} (h : s.take (name.length + 3) = t.take (name.length + 3))
      (hs : closesElement name s = true) : closesElement name t = true := by
    obtain ⟨after, rfl, hname, hstop⟩ := closesElement_iff.mp hs
    obtain ⟨after', rfl, htake⟩ : ∃ after', t = '<' :: '/' :: after' ∧
        after.take (name.length + 1) = after'.take (name.length + 1) := by
      cases t with
      | nil => simp at h
      | cons c t =>
        cases t with
        | nil => simp at h
        | cons d t =>
          simp only [List.take_succ_cons, List.cons.injEq] at h
          exact ⟨t, by rw [← h.1, ← h.2.1], h.2.2⟩
    have hmin : min name.length (name.length + 1) = name.length := Nat.min_eq_left (Nat.le_succ _)
    have hlt : name.length < name.length + 1 := Nat.lt_succ_self _
    refine closesElement_iff.mpr ⟨after', rfl, ?_, ?_⟩
    · rw [← hmin, ← List.take_take, ← htake, List.take_take, hmin]
      exact hname
    · rw [← List.getElem?_take_of_lt hlt, ← htake, List.getElem?_take_of_lt hlt]
      exact hstop
  rw [Bool.eq_iff_iff]
  exact ⟨himp h, himp h.symm⟩

/-- A closing tag that is followed by something holds all that makes it one. -/
theorem length_readTag_of_closesElement (hname : ∀ c ∈ name, c.isAlphanum = true)
    (h : closesElement name ('<' :: text) = true) (hrest : (readTag text).2 ≠ []) :
    name.length + 3 ≤ (readTag text).1.source.length := by
  obtain ⟨after, heq, hafter, -⟩ := closesElement_iff.mp h
  obtain rfl := (List.cons.inj heq).2
  have hlength : (after.take name.length).length = name.length := by
    rw [← List.length_map Char.toLower, hafter]
  have hchars : ∀ c ∈ after.take name.length, isNameChar c = true := by
    intro c hc
    have hlower : c.toLower ∈ name := by
      rw [← hafter]
      exact List.mem_map_of_mem hc
    rw [isNameChar, isAlphanum_of_toLower (hname _ hlower), Bool.true_or]
  have hrun : name.length ≤ (after.takeWhile isNameChar).length := by
    rw [← List.take_append_drop name.length after, List.takeWhile_append_of_pos hchars,
      List.length_append]
    omega
  have hbody : 0 < (tagBody none (afterName ('/' :: after))).1.length :=
    List.length_pos_of_mem (mem_tagBody hrest)
  rw [readTag_eq]
  simp only [tagFront, tagHead, List.length_cons, List.length_append, List.length_nil]
  omega

/-- The content of a hidden element that is followed by something is skipped the same whatever
follows. -/
theorem skipElement_append_rest (hname : ∀ c ∈ name, c.isAlphanum = true)
    (h : (skipElement name text).2 ≠ []) :
    name.length + 3 ≤ (skipElement name text).1.length ∧ ∀ rest,
      skipElement name ((skipElement name text).1 ++ rest) = ((skipElement name text).1, rest) := by
  induction text with
  | nil => exact absurd rfl h
  | cons c text ih =>
    have hwhole := skipElement_append name (c :: text)
    by_cases hcloses : closesElement name (c :: text) = true
    · obtain rfl := eq_of_closesElement hcloses
      simp only [skipElement, hcloses, if_true] at h hwhole ⊢
      have hlong := length_readTag_of_closesElement hname hcloses h
      refine ⟨hlong, fun rest => ?_⟩
      have hsource : (readTag text).1.source = '<' :: (readTag text).1.source.tail := rfl
      have hcloses' : closesElement name ((readTag text).1.source ++ rest) = true := by
        rw [← hcloses, ← hwhole]
        refine closesElement_congr ?_
        rw [List.take_append_of_le_length hlong, List.take_append_of_le_length hlong]
      rw [hsource, List.cons_append] at hcloses' ⊢
      rw [skipElement, if_pos hcloses', readTag_append_rest h]
      rfl
    · -- The closing tag that comes is long enough for no test before it to see what follows it.
      simp only [skipElement, hcloses, Bool.false_eq_true, if_false] at h hwhole ⊢
      obtain ⟨hlong, hskip⟩ := ih h
      refine ⟨Nat.le_succ_of_le hlong, fun rest => ?_⟩
      have hlong' : name.length + 3 ≤ (c :: (skipElement name text).1).length :=
        Nat.le_succ_of_le hlong
      have hcloses' : ¬ closesElement name (c :: (skipElement name text).1 ++ rest) = true := by
        rw [← hwhole] at hcloses
        have htake (tail : Text) : (c :: (skipElement name text).1 ++ tail).take (name.length + 3) =
            (c :: (skipElement name text).1).take (name.length + 3) :=
          List.take_append_of_le_length hlong'
        rwa [closesElement_congr ((htake _).trans (htake rest).symm)] at hcloses
      rw [List.cons_append] at hcloses' ⊢
      rw [skipElement, if_neg hcloses', hskip rest]

/-! ### Pieces of markup -/

theorem isAlphanum_of_mem_hiddenElements {name : String} (h : hiddenElements.contains name = true) :
    ∀ c ∈ name.toList, c.isAlphanum = true := by
  have hall : ∀ name ∈ hiddenElements, ∀ c ∈ name.toList, c.isAlphanum = true := by decide
  exact hall name (List.contains_iff_mem.mp h)

/-- The piece of a tag that is followed by something is read the same whatever follows. -/
theorem tagPiece_append_rest (h : (tagPiece text).2 ≠ []) (rest : Text) :
    tagPiece ((tagPiece text).1.source.tail ++ rest) = ((tagPiece text).1, rest) := by
  unfold tagPiece at h
  dsimp only at h
  split at h
  · next hbreak =>
    simp only [tagPiece, if_pos hbreak, readTag_append_rest h]
  · next hbreak =>
    split at h
    · next hhidden =>
      have hnames := isAlphanum_of_mem_hiddenElements (Bool.and_eq_true_iff.mp hhidden).2
      have hrest : (readTag text).2 ≠ [] := by
        intro hnil
        rw [hnil] at h
        exact h rfl
      have hskip := (skipElement_append_rest hnames h).2 rest
      have hsource : ((readTag text).1.source ++
          (skipElement (readTag text).1.name.toList (readTag text).2).1).tail ++ rest =
          (readTag text).1.source.tail ++
            ((skipElement (readTag text).1.name.toList (readTag text).2).1 ++ rest) := by
        rw [readTag_eq, List.cons_append, List.tail_cons, List.tail_cons, List.append_assoc]
      simp only [tagPiece, if_neg hbreak, if_pos hhidden, hsource, readTag_append_rest hrest, hskip]
    · next hhidden =>
      simp only [tagPiece, if_neg hbreak, if_neg hhidden, readTag_append_rest h]

theorem mem_tagPiece (h : (tagPiece text).2 ≠ []) : '>' ∈ (tagPiece text).1.source := by
  have hmem (h : (readTag text).2 ≠ []) : '>' ∈ (readTag text).1.source := by
    rw [readTag_eq]
    exact List.mem_cons_of_mem _ (List.mem_append_right _ (mem_tagBody h))
  unfold tagPiece at h ⊢
  dsimp only at h ⊢
  split at h
  · next hbreak =>
    rw [if_pos hbreak]
    exact hmem h
  · next hbreak =>
    rw [if_neg hbreak]
    split at h
    · next hhidden =>
      rw [if_pos hhidden]
      refine List.mem_append_left _ (hmem fun hnil => ?_)
      rw [hnil] at h
      exact h rfl
    · next hhidden =>
      rw [if_neg hhidden]
      exact hmem h

theorem length_tagPiece_lt (h : text ≠ []) : (tagPiece text).2.length < text.length := by
  have hlt := length_readTag_lt h
  unfold tagPiece
  dsimp only
  split
  · exact hlt
  · split
    · exact Nat.lt_of_le_of_lt (length_skipElement_le _ _) hlt
    · exact hlt

/-- A tag that shows something is a line break. -/
theorem tagPiece_of_shown (h : (tagPiece text).1.shown ≠ []) :
    (readTag text).1.isClosing = false ∧ (readTag text).1.name = "br" ∧
      tagPiece text = (⟨(readTag text).1.source, ['\n']⟩, (readTag text).2) := by
  unfold tagPiece at h ⊢
  dsimp only at h ⊢
  split at h
  · next hbreak =>
    rw [Bool.and_eq_true, Bool.not_eq_true', beq_iff_eq] at hbreak
    exact ⟨hbreak.1, hbreak.2, by simp [hbreak]⟩
  · split at h
    · exact absurd rfl h
    · exact absurd rfl h

theorem startsTag_of_ne {c : Char} (h : c ≠ '<') : startsTag (c :: text) = false :=
  startsTag.eq_2 _ fun _ _ heq => h (List.cons.inj heq).1

/-- Whether a tag begins shows in the next character. -/
theorem startsTag_congr {c : Char} {text' : Text} (h : text.head? = text'.head?) :
    startsTag (c :: text) = startsTag (c :: text') := by
  by_cases hc : c = '<'
  · obtain rfl := hc
    cases text with
    | nil => rw [List.head?_eq_none_iff.mp h.symm]
    | cons d text =>
      obtain ⟨tail, rfl⟩ := List.head?_eq_some_iff.mp h.symm
      rfl
  · rw [startsTag_of_ne hc, startsTag_of_ne hc]

theorem startsTag_append (h : startsTag text = true) (rest : Text) :
    startsTag (text ++ rest) = true := by
  unfold startsTag at h
  split at h
  · exact h
  · cases h

theorem head?_of_startsTag (h : startsTag text = true) : text.head? = some '<' := by
  cases text with
  | nil => cases h
  | cons c text => rw [eq_of_startsTag h]; rfl

/-- The piece of a tag or a comment at the front of a text, and what follows. -/
def markupPiece (text : Text) : Piece × Text :=
  match "<!--".toList.isPrefixOf? text with
  | some body => commentPiece body
  | none => tagPiece text.tail

theorem pieces_of_startsTag (mode : Whitespace) (h : startsTag text = true) :
    pieces mode text = (markupPiece text).1 :: pieces mode (markupPiece text).2 := by
  cases text with
  | nil => cases h
  | cons c text =>
    rw [pieces, firstPieces, markupPiece]
    cases "<!--".toList.isPrefixOf? (c :: text) with
    | some body => rfl
    | none =>
      dsimp only
      rw [if_pos h]
      rfl

theorem markupPiece_comment (body : Text) :
    markupPiece ("<!--".toList ++ body) = commentPiece body := by
  rw [markupPiece, isPrefixOf?_append]

theorem markupPiece_tag (h : ¬ "<!--".toList <+: text) : markupPiece text = tagPiece text.tail := by
  rw [markupPiece, isPrefixOf?_eq_none h]

/-- What a comment or a tag begins with. -/
theorem comment_or_tag (h : startsTag text = true) : (∃ body, text = "<!--".toList ++ body) ∨
    (¬ "<!--".toList <+: text ∧ ∃ c after, text = '<' :: c :: after) := by
  by_cases hcomment : "<!--".toList <+: text
  · obtain ⟨body, rfl⟩ := hcomment
    exact .inl ⟨body, rfl⟩
  · refine .inr ⟨hcomment, ?_⟩
    unfold startsTag at h
    split at h
    · next c after => exact ⟨c, after, rfl⟩
    · cases h

theorem markupPiece_append (h : startsTag text = true) :
    (markupPiece text).1.source ++ (markupPiece text).2 = text := by
  rcases comment_or_tag h with ⟨body, rfl⟩ | ⟨htag, c, after, rfl⟩
  · rw [markupPiece_comment, commentPiece_append]
  · rw [markupPiece_tag htag, List.tail_cons, tagPiece_append]

/-- The piece begins a tag itself. -/
theorem startsTag_markupPiece (h : startsTag text = true) :
    startsTag (markupPiece text).1.source = true := by
  have happend := markupPiece_append h
  have hlong : 2 ≤ (markupPiece text).1.source.length := by
    rcases comment_or_tag h with ⟨body, rfl⟩ | ⟨htag, c, after, rfl⟩
    · rw [markupPiece_comment, commentPiece]
      split <;> simp
    · have hlt := length_tagPiece_lt (List.cons_ne_nil c after)
      have hlength := congrArg List.length happend
      rw [markupPiece_tag htag, List.tail_cons] at hlength ⊢
      rw [List.length_append, List.length_cons] at hlength
      omega
  cases hsource : (markupPiece text).1.source with
  | nil =>
    rw [hsource] at hlong
    cases hlong
  | cons c source =>
    rw [hsource, List.cons_append] at happend
    rw [← happend] at h
    rw [hsource, List.length_cons] at hlong
    have hne : source ≠ [] := List.length_pos_iff.mp (by omega)
    rwa [startsTag_congr (List.head?_append_of_ne_nil source hne)] at h

theorem length_markupPiece_lt (h : startsTag text = true) :
    (markupPiece text).2.length < text.length := by
  have hpos : 0 < (markupPiece text).1.source.length := by
    refine List.length_pos_iff.mpr fun hnil => ?_
    have hpiece := startsTag_markupPiece h
    rw [hnil] at hpiece
    cases hpiece
  have hlength := congrArg List.length (markupPiece_append h)
  rw [List.length_append] at hlength
  omega

/-- A tag or a comment that is followed by something is read the same whatever follows. -/
theorem markupPiece_append_rest (h : startsTag text = true) (hrest : (markupPiece text).2 ≠ [])
    (rest : Text) :
    markupPiece ((markupPiece text).1.source ++ rest) = ((markupPiece text).1, rest) := by
  have happend := markupPiece_append h
  rcases comment_or_tag h with ⟨body, rfl⟩ | ⟨htag, c, after, rfl⟩
  · rw [markupPiece_comment] at hrest ⊢
    cases hsplit : split? "-->".toList body with
    | none =>
      rw [commentPiece, hsplit] at hrest
      exact absurd rfl hrest
    | some found =>
      obtain ⟨content, after⟩ := found
      have hsource : (commentPiece body).1 =
          ⟨"<!--".toList ++ content ++ "-->".toList, []⟩ := by rw [commentPiece, hsplit]
      have hagain := split?_append_rest hsplit rest
      rw [hsource]
      simp only [List.append_assoc] at hagain ⊢
      rw [markupPiece_comment, commentPiece, hagain]
      simp
  · rw [markupPiece_tag htag, List.tail_cons] at hrest happend ⊢
    have htag' : ¬ "<!--".toList <+: (tagPiece (c :: after)).1.source ++ rest := by
      intro hcomment
      -- The tag's closing bracket is not among these four characters.
      rcases List.prefix_or_prefix_of_prefix hcomment (List.prefix_append _ rest) with hin | hout
      · rw [← happend] at htag
        exact htag (hin.trans (List.prefix_append _ _))
      · have hmem := hout.subset (mem_tagPiece hrest)
        exact absurd hmem (by decide)
    have htail : ((tagPiece (c :: after)).1.source ++ rest).tail =
        (tagPiece (c :: after)).1.source.tail ++ rest :=
      List.tail_append_of_ne_nil (List.ne_nil_of_mem (mem_tagPiece hrest))
    rw [markupPiece_tag htag', htail, tagPiece_append_rest hrest]

/-- Letters and digits behind a tag that shows something change nothing about what it shows. -/
theorem markupPiece_append_word (h : startsTag text = true) (hend : (markupPiece text).2 = [])
    (hshown : (markupPiece text).1.shown ≠ [])
    (hname : (markupPiece text).1.source.map Char.toLower ≠ "<br".toList)
    (hword : ∀ c ∈ word, c.isAlphanum = true) :
    (markupPiece (text ++ word)).1.shown = (markupPiece text).1.shown ∧
      ((markupPiece (text ++ word)).2 = [] ∨ (markupPiece (text ++ word)).2 = word) := by
  rcases comment_or_tag h with ⟨body, rfl⟩ | ⟨htag, c, after, rfl⟩
  · rw [markupPiece_comment, commentPiece] at hshown
    split at hshown <;> exact absurd rfl hshown
  · rw [markupPiece_tag htag, List.tail_cons] at hend hshown hname ⊢
    obtain ⟨hopen, hbr, heq⟩ := tagPiece_of_shown hshown
    rw [heq] at hend hname ⊢
    have hslash : (tagHead (c :: after)).1 = [] := by simpa [readTag] using hopen
    have hlower : (tagFront (c :: after)).map Char.toLower = "br".toList := by
      rw [tagFront, hslash, List.nil_append]
      exact String.ofList_injective hbr
    have hafter : afterName (c :: after) ≠ [] := by
      intro hnil
      refine hname ?_
      rw [readTag_eq, hnil, tagBody, List.append_nil, List.map_cons, hlower]
      rfl
    have htag' : ¬ "<!--".toList <+: '<' :: c :: after ++ word := by
      intro hcomment
      obtain rfl : '!' = c := (List.cons_prefix_cons.mp (List.cons_prefix_cons.mp hcomment).2).1
      have hnil : tagFront ('!' :: after) = [] := rfl
      rw [hnil] at hlower
      exact absurd hlower (by decide)
    obtain ⟨hname', hclosing', hrest⟩ := readTag_append_word hend hafter hword
    rw [markupPiece_tag htag', List.cons_append, List.tail_cons, tagPiece]
    simp only [hname', hclosing', hopen, hbr]
    exact ⟨rfl, hrest⟩

end Marginalia.Markup
