import Marginalia.Proofs.Markup.Tag
import Marginalia.Proofs.Unit

/-! # Where hidden content ends

The content of a hidden element is skipped up to its closing tag.  Whether a tag closes the element is
decided in two ways: `readTag` reads a name of letters, digits and hyphens, and `closesElement` looks for
the name of the element with no letter or digit behind it.  They differ in the hyphen.  So content ends
at the first closing tag whose name is that of the element or goes on behind it with a hyphen
(`closesElement_iff_ends`), and this may come before the closing tag that is meant
(`not_skipElement_closes`).

Nothing in the element up to the end of that tag is visible (`skipElement_ends`).
-/
namespace Marginalia.Markup

open Text Piece

/-! ### Tags that end an element -/

/-- The tag opens the named element. -/
structure Tag.Opens (name : String) (tag : Tag) : Prop where
  opening : tag.isClosing = false
  content : tag.isSelfClosing = false
  name : tag.name = name

/-- The tag closes the named element. -/
structure Tag.Closes (name : String) (tag : Tag) : Prop where
  closing : tag.isClosing = true
  name : tag.name = name

/-- The tag closes the named element, or one whose name goes on behind the name with a hyphen. -/
structure Tag.Ends (name : String) (tag : Tag) : Prop where
  closing : tag.isClosing = true
  name : tag.name = name ∨ (name ++ "-").toList <+: tag.name.toList

/-- The tag that begins here with a slash behind its opening bracket. -/
def closingTag? : Text → Option Tag
  | '<' :: '/' :: text => some (readTag ('/' :: text)).1
  | _ => none

/-- The first tag with a slash for which `p` holds begins at `back`, behind `front`. -/
structure FirstTag (p : Tag → Prop) (text front back : Text) : Prop where
  split : text = front ++ back
  holds : ∃ tag ∈ closingTag? back, p tag
  first : ∀ front' back', text = front' ++ back' → (∃ tag ∈ closingTag? back', p tag) →
    front.length ≤ front'.length

instance (name : String) (tag : Tag) : Decidable (tag.Closes name) :=
  decidable_of_iff (tag.isClosing = true ∧ tag.name = name)
    ⟨fun ⟨h₁, h₂⟩ => ⟨h₁, h₂⟩, fun ⟨h₁, h₂⟩ => ⟨h₁, h₂⟩⟩

instance (name : String) (tag : Tag) : Decidable (tag.Ends name) :=
  decidable_of_iff
    (tag.isClosing = true ∧ (tag.name = name ∨ (name ++ "-").toList <+: tag.name.toList))
    ⟨fun ⟨h₁, h₂⟩ => ⟨h₁, h₂⟩, fun ⟨h₁, h₂⟩ => ⟨h₁, h₂⟩⟩

variable {name : String} {text front back rest : Text} {tag : Tag}

/-- Only the places in front of the tag need to be looked at. -/
theorem firstTag_iff {p : Tag → Prop} : FirstTag p text front back ↔ text = front ++ back ∧
    (∃ tag ∈ closingTag? back, p tag) ∧
      ∀ n < front.length, ¬ ∃ tag ∈ closingTag? (text.drop n), p tag := by
  constructor
  · intro h
    refine ⟨h.split, h.holds, fun n hn hp => ?_⟩
    have hle := h.first (text.take n) (text.drop n) (List.take_append_drop n text).symm hp
    have htake := List.length_take_le n text
    omega
  · rintro ⟨hsplit, hholds, hfirst⟩
    refine ⟨hsplit, hholds, fun front' back' heq hp => ?_⟩
    by_contra hlt
    refine hfirst front'.length (Nat.not_le.mp hlt) ?_
    rwa [heq, List.drop_left]

instance (p : Tag → Prop) [DecidablePred p] (text front back : Text) :
    Decidable (FirstTag p text front back) :=
  decidable_of_iff _ firstTag_iff.symm

theorem closingTag?_eq_some : closingTag? text = some tag ↔
    ∃ after, text = '<' :: '/' :: after ∧ (readTag ('/' :: after)).1 = tag := by
  unfold closingTag?
  split
  · next after => simp
  · next hne =>
    simp only [reduceCtorEq, false_iff]
    rintro ⟨after, rfl, -⟩
    exact hne after rfl

theorem eq_hyphen_of_toLower {c : Char} (h : c.toLower = '-') : c = '-' := by
  unfold Char.toLower at h
  split at h
  · next hupper =>
    -- Lower-case letters come behind the hyphen.
    have hshift : (c.val + ('a'.val - 'A'.val)).toNat = (c.val.toNat + 32) % 2 ^ 32 :=
      UInt32.toNat_add ..
    have hvalue : (c.val + ('a'.val - 'A'.val)).toNat = 45 := congrArg (fun d => d.val.toNat) h
    have hbounds : c.val.toNat ≥ 65 ∧ c.val.toNat ≤ 90 :=
      ⟨UInt32.le_iff_toNat_le.mp hupper.1, UInt32.le_iff_toNat_le.mp hupper.2⟩
    omega
  · exact h

/-- What follows the name of the element in the name of a tag begins with a hyphen, if it does not begin
with a letter or a digit. -/
theorem head?_takeWhile_isNameChar (h : text.head?.any Char.isAlphanum = false) :
    text.takeWhile isNameChar = [] ∨ ∃ more, text.takeWhile isNameChar = '-' :: more := by
  cases text with
  | nil => exact .inl rfl
  | cons c text =>
    by_cases hc : c = '-'
    · subst hc
      exact .inr ⟨_, List.takeWhile_cons_of_pos (by decide)⟩
    · refine .inl (List.takeWhile_cons_of_neg ?_)
      have halnum : c.isAlphanum = false := h
      rw [isNameChar, halnum, Bool.false_or, beq_iff_eq]
      exact hc

/-- The name of a closing tag is read behind its slash. -/
theorem name_readTag_slash (after : Text) : (readTag ('/' :: after)).1.name.toList =
    (after.takeWhile isNameChar).map Char.toLower :=
  String.toList_ofList

/-- A closing tag is taken for the end of the element if its name is that of the element or goes on
behind it with a hyphen. -/
theorem closesElement_iff_ends (hname : ∀ c ∈ name.toList, c.isAlphanum = true) :
    closesElement name.toList text = true ↔ ∃ tag ∈ closingTag? text, tag.Ends name := by
  rw [closesElement_iff]
  constructor
  · rintro ⟨after, rfl, hlower, hstop⟩
    refine ⟨_, rfl, rfl, ?_⟩
    have hrun : ∀ c ∈ after.take name.toList.length, isNameChar c = true := by
      intro c hc
      have hmem : c.toLower ∈ name.toList := by
        rw [← hlower]
        exact List.mem_map_of_mem hc
      rw [isNameChar, isAlphanum_of_toLower (hname _ hmem), Bool.true_or]
    -- The name of the tag is that of the element and what follows it.
    have hsplit : after.takeWhile isNameChar = after.take name.toList.length ++
        (after.drop name.toList.length).takeWhile isNameChar := by
      rw [← List.takeWhile_append_of_pos hrun, List.take_append_drop]
    rw [← List.head?_drop] at hstop
    rw [← String.toList_inj, name_readTag_slash, hsplit, List.map_append, hlower,
      String.toList_append]
    rcases head?_takeWhile_isNameChar hstop with hnil | ⟨more, hmore⟩
    · left
      rw [hnil, List.map_nil, List.append_nil]
    · right
      rw [hmore]
      exact (List.prefix_append_right_inj _).mpr ⟨more.map Char.toLower, rfl⟩
  · rintro ⟨tag, htag, -, hends⟩
    obtain ⟨after, rfl, rfl⟩ := closingTag?_eq_some.mp htag
    refine ⟨after, rfl, ?_⟩
    have hafter := @List.takeWhile_append_dropWhile _ isNameChar after
    rw [← String.toList_inj, name_readTag_slash, String.toList_append] at hends
    rcases hends with hsame | ⟨more, hmore⟩
    · have hlength : (after.takeWhile isNameChar).length = name.toList.length := by
        rw [← hsame, List.length_map]
      rw [← hafter, List.take_left' hlength, ← hlength, List.getElem?_append_right (Nat.le_refl _),
        Nat.sub_self, ← List.head?_eq_getElem?]
      refine ⟨hsame, ?_⟩
      rw [Option.any_eq_false]
      intro c hc
      have hstop := stops_dropWhile isNameChar after c hc
      rw [isNameChar, Bool.or_eq_false_iff] at hstop
      exact hstop.1
    · obtain ⟨run, rest, hrun, hlower, hrest⟩ := List.map_eq_append_iff.mp (hmore.symm.trans
        (List.append_assoc _ _ _))
      obtain ⟨d, rest, rfl, hd, -⟩ := List.map_eq_cons_iff.mp hrest
      have hlength : run.length = name.toList.length := by rw [← hlower, List.length_map]
      rw [← hafter, hrun, List.append_assoc, List.take_left' hlength, ← hlength,
        List.getElem?_append_right (Nat.le_refl _), Nat.sub_self, eq_hyphen_of_toLower hd]
      exact ⟨hlower, rfl⟩

/-! ### Where the content ends -/

/-- The content ends with the first tag that ends the element. -/
theorem skipElement_of_first (hname : ∀ c ∈ name.toList, c.isAlphanum = true)
    (h : FirstTag (Tag.Ends name) text front back) : skipElement name.toList text =
      (front ++ (readTag back.tail).1.source, (readTag back.tail).2) := by
  induction front generalizing text with
  | nil =>
    obtain rfl : text = back := h.split
    have hcloses := (closesElement_iff_ends hname).mpr h.holds
    cases text with
    | nil => cases hcloses
    | cons c text =>
      rw [skipElement, if_pos hcloses]
      rfl
  | cons c front ih =>
    obtain ⟨text, rfl⟩ : ∃ rest, text = c :: rest := ⟨_, h.split⟩
    have hsplit : text = front ++ back := (List.cons.inj h.split).2
    have hopen : ¬ closesElement name.toList (c :: text) = true := by
      intro hcloses
      have hle := h.first [] _ rfl ((closesElement_iff_ends hname).mp hcloses)
      exact absurd hle (Nat.not_le.mpr (Nat.succ_pos _))
    have hrest : FirstTag (Tag.Ends name) text front back := {
      split := hsplit
      holds := h.holds
      first := fun front' back' heq hback' => by
        have hle := h.first (c :: front') back' (by rw [heq]; rfl) hback'
        exact Nat.le_of_succ_le_succ hle }
    rw [skipElement, if_neg hopen, ih hrest]
    rfl

/-- Without a tag that ends the element all of the text is its content. -/
theorem skipElement_of_none (hname : ∀ c ∈ name.toList, c.isAlphanum = true)
    (h : ∀ front back, text = front ++ back → ¬ ∃ tag ∈ closingTag? back, tag.Ends name) :
    skipElement name.toList text = (text, []) := by
  induction text with
  | nil => rfl
  | cons c text ih =>
    have hopen : ¬ closesElement name.toList (c :: text) = true := fun hcloses =>
      h [] _ rfl ((closesElement_iff_ends hname).mp hcloses)
    have hrest := ih fun front back heq => h (c :: front) back (by rw [heq]; rfl)
    rw [skipElement, if_neg hopen, hrest]

/-! ### What is hidden -/

/-- Reading a marked-up text piece by piece comes to where `rest` is left. -/
inductive ReadsTo (mode : Whitespace) : Text → Text → Prop where
  | refl (text : Text) : ReadsTo mode text text
  | step {c : Char} {text rest : Text} (h : ReadsTo mode (firstPieces mode c text).2 rest) :
    ReadsTo mode (c :: text) rest

theorem ReadsTo.exists_pieces {mode : Whitespace} (h : ReadsTo mode text rest) :
    ∃ before, pieces mode text = before ++ pieces mode rest ∧ text = sources before ++ rest := by
  induction h with
  | refl text => exact ⟨[], rfl, rfl⟩
  | @step c text rest h ih =>
    obtain ⟨before, hpieces, htext⟩ := ih
    refine ⟨(firstPieces mode c text).1 ++ before, ?_, ?_⟩
    · rw [pieces, hpieces, List.append_assoc]
    · rw [sources_append, List.append_assoc, ← htext, firstPieces_append]

/-- A piece that shows nothing has no unit. -/
theorem unit_apart_of_hidden {before after : List Piece} {piece : Piece} {at' : Nat}
    {unit : VisibleUnit} (hshown : piece.shown = [])
    (h : unit ∈ unitsFrom at' (before ++ piece :: after)) :
    unit.stop ≤ at' + (sources before).byteLength ∨
      at' + (sources before).byteLength + piece.source.byteLength ≤ unit.start := by
  rw [unitsFrom_append, unitsFrom, hshown, List.map_nil, List.nil_append, List.mem_append] at h
  rcases h with h | h
  · exact .inl (stop_le_of_mem_unitsFrom h)
  · exact .inr (le_start_of_mem_unitsFrom h)

/-- A tag that opens a hidden element begins with a letter behind its bracket. -/
theorem exists_letter_of_opens (hname : name ∈ hiddenElements) (h : (readTag text).1.Opens name) :
    ∃ c after, text = c :: after ∧ c.isAlpha = true := by
  have hslash : (tagHead text).1 = [] := by simpa [readTag] using h.opening
  have hhead : (tagHead text).2 = text := by
    have happend := tagHead_append text
    rwa [hslash, List.nil_append] at happend
  have hlower : (readTag text).1.name.toList =
      ((tagHead text).2.takeWhile isNameChar).map Char.toLower := String.toList_ofList
  rw [h.name, hhead] at hlower
  obtain ⟨d, tail, hd, hletter⟩ : ∃ d tail, name.toList = d :: tail ∧ d.isAlpha = true := by
    have hall : ∀ name ∈ hiddenElements, name.toList.head?.any Char.isAlpha = true := by decide
    obtain ⟨d, hd, hletter⟩ := (Option.any_eq_true _ _).mp (hall name hname)
    obtain ⟨tail, htail⟩ := List.head?_eq_some_iff.mp hd
    exact ⟨d, tail, htail, hletter⟩
  rw [hd] at hlower
  obtain ⟨c, run, hrun, rfl, -⟩ := List.map_eq_cons_iff.mp hlower.symm
  obtain ⟨after, hafter⟩ := @List.takeWhile_prefix _ text isNameChar
  rw [hrun, List.cons_append] at hafter
  exact ⟨c, run ++ after, hafter.symm, isAlpha_of_toLower hletter⟩

/-- A tag that opens a hidden element makes one piece with the content of the element. -/
theorem pieces_of_opens {mode : Whitespace} (hname : name ∈ hiddenElements)
    (h : (readTag text).1.Opens name) : pieces mode ('<' :: text) =
      ⟨(readTag text).1.source ++ (skipElement name.toList (readTag text).2).1, []⟩ ::
        pieces mode (skipElement name.toList (readTag text).2).2 := by
  obtain ⟨c, after, hc, hletter⟩ := exists_letter_of_opens hname h
  have hstarts : startsTag ('<' :: text) = true := by
    rw [hc, startsTag, hletter, Bool.true_or, Bool.true_or, Bool.true_or]
  have hcomment : ¬ "<!--".toList <+: '<' :: text := by
    rw [hc]
    intro hcomment
    obtain rfl : '!' = c := (List.cons_prefix_cons.mp (List.cons_prefix_cons.mp hcomment).2).1
    cases hletter
  have hbreak : name ≠ "br" := by
    rintro rfl
    exact absurd hname (by decide)
  rw [pieces_of_startsTag mode hstarts, markupPiece_tag hcomment, List.tail_cons, tagPiece]
  simp only [h.opening, h.content, h.name, List.contains_iff_mem.mpr hname, Bool.not_false,
    Bool.true_and, beq_iff_eq, if_neg hbreak, if_true]

/-- **Where hidden content ends.**  The content of a hidden element is skipped through the first tag that
ends the element, and to the end of the text if there is none.  Whatever of a marked-up text is visible
lies before the tag that opens the element or behind what was skipped. -/
theorem skipElement_ends (hname : name ∈ hiddenElements) :
    (∀ text front back, FirstTag (Tag.Ends name) text front back → skipElement name.toList text =
      (front ++ (readTag back.tail).1.source, (readTag back.tail).2)) ∧
    (∀ text, (∀ front back, text = front ++ back → ¬ ∃ tag ∈ closingTag? back, tag.Ends name) →
      skipElement name.toList text = (text, [])) ∧
    ∀ mode front text, ReadsTo mode (front ++ '<' :: text) ('<' :: text) →
      (readTag text).1.Opens name → ∀ unit ∈ visibleUnits mode (front ++ '<' :: text),
        unit.stop ≤ front.byteLength ∨ front.byteLength + ((readTag text).1.source ++
          (skipElement name.toList (readTag text).2).1).byteLength ≤ unit.start := by
  have halnum := isAlphanum_of_mem_hiddenElements (List.contains_iff_mem.mpr hname)
  refine ⟨fun text front back => skipElement_of_first halnum, fun text => skipElement_of_none halnum,
    fun mode front text hreads hopens unit hunit => ?_⟩
  obtain ⟨before, hpieces, hfront⟩ := hreads.exists_pieces
  rw [visibleUnits, units, hpieces, pieces_of_opens hname hopens] at hunit
  have hapart := unit_apart_of_hidden rfl hunit
  rwa [← List.append_cancel_right hfront, Nat.zero_add] at hapart

theorem skipElement_ends_title : "title" ∈ hiddenElements ∧
    skipElement "title".toList "b</title-x>c".toList = ("b</title-x>".toList, "c".toList) ∧
    skipElement "title".toList "b</titles>".toList = ("b</titles>".toList, []) ∧
    ∀ unit ∈ visibleUnits .preserve "a<title>b</title>c".toList, unit.stop ≤ 1 ∨ 17 ≤ unit.start := by
  have hname : "title" ∈ hiddenElements := by decide
  have hfirst : FirstTag (Tag.Ends "title") "b</title-x>c".toList "b".toList "</title-x>c".toList := by
    decide +kernel
  have hnone : ∀ front back, "b</titles>".toList = front ++ back →
      ¬ ∃ tag ∈ closingTag? back, tag.Ends "title" := by
    intro front back heq
    have hback : back = "b</titles>".toList.drop front.length := by rw [heq, List.drop_left]
    have hlength := congrArg List.length heq
    have hall : ∀ n < 11, ¬ ∃ tag ∈ closingTag? ("b</titles>".toList.drop n), tag.Ends "title" := by
      decide +kernel
    rw [hback]
    refine hall _ ?_
    rw [List.length_append] at hlength
    have hten : "b</titles>".toList.length = 10 := by decide
    omega
  have hreads : ReadsTo .preserve ("a".toList ++ '<' :: "title>b</title>c".toList)
      ('<' :: "title>b</title>c".toList) := .step (.refl _)
  have hopens : (readTag "title>b</title>c".toList).1.Opens "title" := by
    refine ⟨?_, ?_, ?_⟩ <;> decide +kernel
  refine ⟨hname, (skipElement_ends hname).1 _ _ _ hfirst, (skipElement_ends hname).2.1 _ hnone, ?_⟩
  exact (skipElement_ends hname).2.2 .preserve "a".toList "title>b</title>c".toList hreads hopens

/-- The tag that closes the element may come too late. -/
theorem not_skipElement_closes : ¬ ∀ name ∈ hiddenElements, ∀ text front back,
    FirstTag (Tag.Closes name) text front back → skipElement name.toList text =
      (front ++ (readTag back.tail).1.source, (readTag back.tail).2) := by
  intro h
  have hskip := h "title" (by decide) "a</title-x>b</title>c".toList "a</title-x>b".toList
    "</title>c".toList (by decide +kernel)
  exact absurd hskip (by decide +kernel)

end Marginalia.Markup
