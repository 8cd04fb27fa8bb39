import Marginalia.Proofs.Canonical
import Marginalia.Proofs.Nesting.Rendering

/-! # Bracketed arguments over several regions

Regions may be cut in the midst of a bracketed argument.  A closing bracket in its braces does not end
it, and neither do the brackets of wrappers and notes, as these are put between regions or stand in
braces of their own.  So the argument ends where its text does, however often it is cut.

A place in the argument is the number of groups that are open there.  The text of a region leads from
one place to another (`Leads`), and so does what is rendered from it (`scan_region`).  The segmenter
knows no more than the place, which it carries from one region to the next (`Segmenter.inside`).
-/
namespace Marginalia

open Text Latex

/-! ### Places in an argument -/

/-- A text that can stand in a bracketed argument: it has no escapes, comments and mathematics, its
braces are balanced, and brackets stand in braces. -/
structure ArgumentBody (body : Text) : Prop where
  plain : ∀ c ∈ body, c ∉ ['\\', '%', '$']
  closes_le : ∀ k ≤ body.length, (body.take k).count '\x7d' ≤ (body.take k).count '\x7b'
  balanced : body.count '\x7d' = body.count '\x7b'
  brackets : ∀ k < body.length, body[k]? = some '[' ∨ body[k]? = some ']' →
    (body.take k).count '\x7d' < (body.take k).count '\x7b'

/-- The text leads from one place in a bracketed argument to another.  A place is the number of groups
that are open in the argument, and none is the place behind its end. -/
inductive Leads : Option Nat → Text → Option Nat → Prop
  | nil {place : Option Nat} : Leads place [] place
  | left {depth : Nat} {text : Text} {last : Option Nat} (h : Leads (some (depth + 1)) text last) :
      Leads (some depth) ('\x7b' :: text) last
  | right {depth : Nat} {text : Text} {last : Option Nat} (h : Leads (some depth) text last) :
      Leads (some (depth + 1)) ('\x7d' :: text) last
  | bracket {depth : Nat} {c : Char} {text : Text} {last : Option Nat} (hc : c = '[' ∨ c = ']')
      (h : Leads (some (depth + 1)) text last) : Leads (some (depth + 1)) (c :: text) last
  | char {depth : Nat} {c : Char} {text : Text} {last : Option Nat} (hc : Plain c) (hdollar : c ≠ '$')
      (h : Leads (some depth) text last) : Leads (some depth) (c :: text) last
  | close {text : Text} {last : Option Nat} (h : Leads none text last) :
      Leads (some 0) (']' :: text) last

namespace Leads

variable {place last : Option Nat} {depth : Nat} {text front back : Text}

theorem of_none (h : Leads none text last) : text = [] ∧ last = none := by
  cases h
  exact ⟨rfl, rfl⟩

/-- A text that was cut leads over the place of the cut. -/
theorem cut (h : Leads place (front ++ back) last) :
    ∃ middle, Leads place front middle ∧ Leads middle back last := by
  induction front generalizing place with
  | nil => exact ⟨place, .nil, h⟩
  | cons c front ih =>
    cases h with
    | left h =>
      obtain ⟨middle, hfront, hback⟩ := ih h
      exact ⟨middle, .left hfront, hback⟩
    | right h =>
      obtain ⟨middle, hfront, hback⟩ := ih h
      exact ⟨middle, .right hfront, hback⟩
    | bracket hc h =>
      obtain ⟨middle, hfront, hback⟩ := ih h
      exact ⟨middle, .bracket hc hfront, hback⟩
    | char hc hdollar h =>
      obtain ⟨middle, hfront, hback⟩ := ih h
      exact ⟨middle, .char hc hdollar hfront, hback⟩
    | close h =>
      obtain ⟨middle, hfront, hback⟩ := ih h
      exact ⟨middle, .close hfront, hback⟩

/-- In front of more text there is a number of open groups. -/
theorem cut_of_ne_nil (h : Leads place (front ++ back) last) (hback : back ≠ []) :
    ∃ depth, Leads place front (some depth) ∧ Leads (some depth) back last := by
  obtain ⟨middle, hfront, hback'⟩ := h.cut
  cases middle with
  | none => exact absurd hback'.of_none.1 hback
  | some depth => exact ⟨depth, hfront, hback'⟩

/-- White space leads nowhere. -/
theorem dropBlanks (h : Leads (some depth) text last) :
    Leads (some depth) (text.dropWhile isTexBlank) last := by
  induction text with
  | nil => exact h
  | cons c text ih =>
    by_cases hblank : isTexBlank c = true
    · rw [List.dropWhile_cons_of_pos hblank]
      have hplain := plain_of_isTexBlank hblank
      cases h with
      | left h => exact absurd rfl hplain.left
      | right h => exact absurd rfl hplain.right
      | bracket hc h => exact absurd hc (not_or.mpr ⟨hplain.leftBracket, hplain.rightBracket⟩)
      | char hc hdollar h => exact ih h
      | close h => exact absurd rfl hplain.rightBracket
    · rwa [List.dropWhile_cons_of_neg hblank]

/-- Text without braces and brackets leads nowhere. -/
theorem eq_of_not_special (h : Leads place text last) (htext : ∀ c ∈ text, c ∉ Segmenter.special) :
    last = place := by
  induction h with
  | nil => rfl
  | left => exact absurd (by decide) (htext _ List.mem_cons_self)
  | right => exact absurd (by decide) (htext _ List.mem_cons_self)
  | bracket hc => rcases hc with rfl | rfl <;> exact absurd (by decide) (htext _ List.mem_cons_self)
  | char _ _ _ ih => exact ih fun d hd => htext d (List.mem_cons_of_mem _ hd)
  | close => exact absurd (by decide) (htext _ List.mem_cons_self)

end Leads

namespace ArgumentBody

variable {body front back : Text} {c : Char} {depth : Nat}

/-- A character of the body leads from the place in front of it to the place behind it. -/
theorem exists_leads_cons (h : ArgumentBody body) (hbody : body = front ++ c :: back)
    (hdepth : front.count '\x7b' = front.count '\x7d' + depth) :
    ∃ depth', (front ++ [c]).count '\x7b' = (front ++ [c]).count '\x7d' + depth' ∧
      ∀ {text last}, Leads (some depth') text last → Leads (some depth) (c :: text) last := by
  have hle : (front ++ [c]).count '\x7d' ≤ (front ++ [c]).count '\x7b' := by
    have hle := h.closes_le (front ++ [c]).length (by simp [hbody])
    rwa [hbody, List.append_cons front c back, List.take_left] at hle
  simp only [List.count_append, List.count_singleton] at hle ⊢
  by_cases hleft : c = '\x7b'
  · subst hleft
    exact ⟨depth + 1, by simp; omega, .left⟩
  by_cases hright : c = '\x7d'
  · subst hright
    obtain ⟨outer, rfl⟩ : ∃ outer, depth = outer + 1 := ⟨depth - 1, by simp at hle; omega⟩
    exact ⟨outer, by simp; omega, .right⟩
  refine ⟨depth, by simp [hleft, hright, hdepth], ?_⟩
  by_cases hbracket : c = '[' ∨ c = ']'
  · have hlt := h.brackets front.length (by simp [hbody]) (by simpa [hbody] using hbracket)
    rw [hbody, List.take_left] at hlt
    obtain ⟨outer, rfl⟩ : ∃ outer, depth = outer + 1 := ⟨depth - 1, by omega⟩
    exact .bracket hbracket
  · have hplain := h.plain c (by simp [hbody])
    simp only [List.mem_cons, List.not_mem_nil, or_false, not_or] at hplain hbracket
    obtain ⟨hescape, hcomment, hdollar⟩ := hplain
    obtain ⟨hleftBracket, hrightBracket⟩ := hbracket
    exact .char ⟨⟨hescape, hleft, hright, hcomment⟩, hleftBracket, hrightBracket⟩ hdollar

theorem leads_from (h : ArgumentBody body) (hbody : body = front ++ back)
    (hdepth : front.count '\x7b' = front.count '\x7d' + depth) :
    Leads (some depth) (back ++ [']']) none := by
  induction back generalizing front depth with
  | nil =>
    have hbalanced := h.balanced
    rw [hbody, List.append_nil] at hbalanced
    obtain rfl : depth = 0 := by omega
    exact .close .nil
  | cons c back ih =>
    obtain ⟨depth', hdepth', hleads⟩ := h.exists_leads_cons hbody hdepth
    exact hleads (ih (by rw [hbody, List.append_cons]) hdepth')

/-- The body of an argument leads to its end. -/
theorem leads (h : ArgumentBody body) : Leads (some 0) (body ++ [']']) none :=
  @leads_from body [] body 0 h rfl rfl

end ArgumentBody

/-! ### The scan of an argument -/

/-- Scans a bracketed argument from a place in it. -/
def scanAt : Option Nat → Text → BracketScan
  | none, rest => .closed rest
  | some depth, text => scanInside depth text

/-- The scan goes where the text leads. -/
theorem Leads.scanAt {place last : Option Nat} {text : Text} (h : Leads place text last) (rest : Text) :
    Marginalia.scanAt place (text ++ rest) = Marginalia.scanAt last rest := by
  induction h with
  | nil => rfl
  | left _ ih => exact (scanInside_left _ _).trans ih
  | right _ ih => exact (scanInside_right _ _).trans ih
  | @bracket depth _ _ _ hc _ ih =>
    rcases hc with rfl | rfl
    · exact (@scanInside_cons '[' (by decide) (by decide) (depth + 1) _).trans ih
    · exact (scanInside_rightBracket depth _).trans ih
  | char hc _ _ ih => exact (scanInside_cons hc.toInert hc.rightBracket _ _).trans ih
  | @close text _ _ ih =>
    have hclosed : scanBracket (']' :: (text ++ rest)) = .closed (text ++ rest) := by rw [scanBracket]
    exact hclosed.trans ih

/-! ### The segmenter in an argument -/

namespace Segmenter

/-- The segmenter at a place in a bracketed argument outside of others. -/
def inside (place : Option Nat) : Segmenter :=
  ⟨.text, place.toList⟩

/-- Markup, or running text that is shielded. -/
def Covered (read : Segment.Kind × Char) : Prop :=
  read.1 = .markup ∨ read.1 = .shielded ∧ read.2 ∉ special

variable {place last : Option Nat} {depth : Nat} {c : Char} {text front : Text}

/-- A step in an argument. -/
structure Step.Inside (read : Step) (place last : Option Nat) : Prop where
  state : ∃ middle, read.state = inside middle ∧ Leads middle read.rest last
  covered : ∀ c ∈ read.piece, Covered ((read.segment (inside place)).kind, c)

theorem Step.inside_of_markup {piece rest : Text} {middle : Option Nat}
    (h : Leads middle rest last) : (Step.mk true piece rest (inside middle)).Inside place last :=
  ⟨⟨middle, rfl, h⟩, fun _ _ => .inl rfl⟩

theorem covered_segment (read : Step) (hpiece : ∀ c ∈ read.piece, c ∉ special) :
    ∀ c ∈ read.piece, Covered ((read.segment (inside (some depth))).kind, c) := by
  intro c hc
  rw [Step.segment]
  split
  · exact .inl rfl
  · exact .inr ⟨rfl, hpiece c hc⟩

theorem not_special (h : Ordinary c) : c ∉ special := by
  simp [special, h.escape, h.left, h.right, h.leftBracket, h.rightBracket, h.ampersand, h.comment,
    h.dollar]

/-- A step goes where the text leads. -/
theorem step_inside (h : Leads place (c :: text) last) :
    (step (inside place) c text).Inside place last := by
  cases h with
  | left h => exact Step.inside_of_markup h
  | right h => exact Step.inside_of_markup h
  | bracket hc h => rcases hc with rfl | rfl <;> exact Step.inside_of_markup h
  | close h => exact Step.inside_of_markup h
  | @char depth _ _ _ hc hdollar h =>
    by_cases hampersand : c = '&'
    · subst hampersand
      exact Step.inside_of_markup h
    have hspecial : c ∉ special := not_special ⟨hc, hdollar, hampersand⟩
    rw [step_of_not_special hspecial]
    split
    · next hblank =>
      refine ⟨⟨some depth, rfl, h.dropBlanks⟩, covered_segment _ ?_⟩
      refine List.forall_mem_cons.mpr ⟨hspecial, fun d hd => ?_⟩
      exact not_special (ordinary_of_isTexBlank (List.all_eq_true.mp List.all_takeWhile d hd))
    · refine ⟨⟨some depth, rfl, h⟩, covered_segment _ ?_⟩
      exact fun d hd => List.mem_singleton.mp hd ▸ hspecial

/-- The steps over a text go where it leads, and all its running text is shielded. -/
theorem parts_inside (h : Leads place text last) :
    (parts (inside place) text).2 = inside last ∧
      ∀ read ∈ Segment.marked (parts (inside place) text).1, Covered read := by
  have key (state : Segmenter) (text : Text) : ∀ place, state = inside place →
      Leads place text last → (parts state text).2 = inside last ∧
        ∀ read ∈ Segment.marked (parts state text).1, Covered read := by
    fun_induction parts state text with
    | case1 =>
      rintro place rfl h
      cases h
      exact ⟨rfl, fun read hread => absurd hread List.not_mem_nil⟩
    | case2 state c text read after ih =>
      rintro place rfl h
      obtain ⟨⟨middle, hmiddle, hrest⟩, hcovered⟩ := step_inside h
      obtain ⟨hlast, hparts⟩ := ih middle hmiddle hrest
      refine ⟨hlast, ?_⟩
      rw [Segment.marked_cons]
      refine List.forall_mem_append.mpr ⟨fun mark hmark => ?_, hparts⟩
      obtain ⟨d, hd, rfl⟩ := List.mem_map.mp hmark
      exact hcovered d hd
  exact key _ text place rfl h

/-- A region in an argument leaves the segmenter where its text leads. -/
theorem split_inside (h : Leads place text last) :
    ((inside place).split text).2 = inside last ∧
      ∀ read ∈ Segment.marked ((inside place).split text).1, Covered read := by
  obtain ⟨hlast, hcovered⟩ := parts_inside h
  rw [split_of_text rfl]
  exact ⟨hlast, Segment.forall_marked_ofParts (fun _ => .inl rfl) hcovered⟩

/-- A bracketed argument that runs out of the text is not read. -/
theorem optionalArguments_of_open (hopen : scanBracket front = .unclosed) :
    optionalArguments ('[' :: front) = '[' :: front := by
  have hskip : skipBlanks ('[' :: front) = '[' :: front := rfl
  have hnone : readBracket? (skipBlanks ('[' :: front)) = none := by rw [hskip, readBracket?, hopen]
  rw [optionalArguments]
  split
  · next hsome =>
    rw [hnone] at hsome
    cases hsome
  · rfl

/-- A command whose bracketed argument runs out of the text leaves the argument open. -/
theorem command_of_open (hopen : scanBracket front = .unclosed) (state : Segmenter) (whole : Text)
    (name : String) : command state whole name ('[' :: front) =
      passUpTo { state with brackets := 0 :: state.brackets } whole front := by
  have hskip : skipBlanks ('[' :: front) = '[' :: front := rfl
  have hhead : definitionHead ('[' :: front) = '[' :: front := rfl
  have hstar : dropStar ('[' :: front) = '[' :: front := rfl
  rw [command, hstar, hhead]
  split
  next after count heq =>
  obtain rfl : after = '[' :: front := by
    split at heq <;> exact (Prod.mk.inj heq).1.symm
  dsimp only
  rw [optionalArguments_of_open hopen, hskip]
  exact if_pos hopen

theorem step_command {name : String} (hne : name ≠ "") (hletters : ∀ c ∈ name.toList, c.isAlpha = true)
    (hverb : name ≠ "verb") (hsymbol : isTextSymbol name = false)
    (hopen : scanBracket front = .unclosed) :
    step start '\\' (name.toList ++ '[' :: front) =
      ⟨true, '\\' :: (name.toList ++ ['[']), front, inside (some 0)⟩ := by
  have hstops : Stops Char.isAlpha ('[' :: front) := stops_cons.mpr (by decide)
  have hverbatim : Verbatim.begins? ('\\' :: (name.toList ++ '[' :: front)) = none := by
    refine Verbatim.begins?_eq_none fun env => ?_
    rintro ⟨after, hafter⟩
    rw [Verbatim.opening_append, List.cons.injEq] at hafter
    obtain ⟨-, hbrace⟩ := append_stop_inj (p := Char.isAlpha) (by decide) hletters
      (stops_cons.mpr (by decide)) hstops hafter.2
    cases hbrace
  have hpiece : upTo ('\\' :: (name.toList ++ '[' :: front)) front =
      '\\' :: (name.toList ++ ['[']) := by
    rw [List.append_cons, ← List.cons_append, upTo_append_right]
  have hcontrol : step start '\\' (name.toList ++ '[' :: front) =
      command start ('\\' :: (name.toList ++ '[' :: front)) name ('[' :: front) := by
    rw [step, control, hverbatim, readControl_word hne hletters hstops]
    dsimp only
    rw [hsymbol, if_neg (by simp), if_neg hverb]
  rw [hcontrol, command_of_open hopen, passUpTo, hpiece]
  rfl

/-- What is open after texts that are read one after the other. -/
def after (state : Segmenter) (texts : List Text) : Segmenter :=
  texts.foldl (fun state text => (state.split text).2) state

end Segmenter

/-! ### What is rendered in an argument -/

namespace Layers

/-- A wrapper of a balanced text is balanced. -/
theorem balanced_wrapper {name : String} {option text : Text} (hne : name ≠ "")
    (hletters : ∀ c ∈ name.toList, c.isAlpha = true) (hoption : ∀ c ∈ option, Ordinary c)
    (h : Balanced text) :
    Balanced ('\\' :: (name.toList ++ '[' :: (option ++ ']' :: '\x7b' :: (text ++ ['\x7d'])))) := by
  refine Balanced.command ?_ hne hletters (by decide)
  have hopen : Balanced ['['] := balanced_of_inert (by decide)
  have hclose : Balanced [']'] := balanced_of_inert (by decide)
  have hbracket := balanced_of_inert fun c hc => (hoption c hc).toInert
  exact hopen.append (hbracket.append (hclose.append h.group))

theorem balanced_highLight {color text : Text} (hcolor : ∀ c ∈ color, Ordinary c) (h : Balanced text) :
    Balanced (highLight color text) := by
  rw [highLight_eq]
  exact balanced_wrapper (by decide) (by decide) hcolor h

theorem balanced_underLine {color height bottom text : Text} (hcolor : ∀ c ∈ color, Ordinary c)
    (hheight : ∀ c ∈ height, Ordinary c) (hbottom : ∀ c ∈ bottom, Ordinary c) (h : Balanced text) :
    Balanced (underLine color height bottom text) := by
  rw [underLine_eq]
  exact balanced_wrapper (by decide) (by decide) (ordinary_lineOption hcolor hheight hbottom) h

/-- Balanced text in its wrappers is balanced. -/
theorem balanced_wrap {layers : Layers} (hkeyed : layers.Keyed) {text : Text} (h : Balanced text) :
    Balanced (layers.wrap text) := by
  cases layers with
  | one style =>
    exact balanced_highLight (ordinary_light hkeyed) (balanced_underLine (ordinary_dark hkeyed)
      (ordinary_word (by decide)) (ordinary_word (by decide)) h)
  | two outer inner =>
    obtain ⟨houter, hinner⟩ := hkeyed
    refine balanced_highLight (ordinary_light houter) (balanced_highLight (ordinary_light hinner) ?_)
    exact balanced_underLine (ordinary_dark houter) (ordinary_word (by decide))
      (ordinary_word (by decide)) (balanced_underLine (ordinary_dark hinner)
        (ordinary_word (by decide)) (ordinary_word (by decide)) h)
  | many =>
    exact balanced_highLight (ordinary_word (by decide)) (balanced_underLine
      (ordinary_word (by decide)) (ordinary_word (by decide)) (ordinary_word (by decide)) h)

end Layers

namespace Rendering

variable {rendering : Rendering} {place last : Option Nat} {depth : Nat}

theorem sealed_notes (h : rendering.Keyed) (anchors : List Nat) :
    Sealed (textOf (rendering.notes anchors)) := by
  refine sealed_flatten fun text htext => ?_
  obtain ⟨piece, hpiece, rfl⟩ := List.mem_map.mp htext
  obtain ⟨highlight, style, hkey, heq⟩ := h.of_mem_notes hpiece
  rw [heq]
  exact Note.sealed_toText hkey highlight

/-- Braces keep the brackets of wrappers from the argument around them. -/
theorem scan_segmentPiece {layers? : Option Layers} (hkeyed : ∀ layers ∈ layers?, layers.Keyed)
    {segment : Segment} (hne : segment.text ≠ [])
    (hcovered : ∀ c ∈ segment.text, Segmenter.Covered (segment.kind, c))
    (h : Leads place segment.text last) (rest : Text) :
    scanAt place ((segmentPiece layers? segment).toText ++ rest) = scanAt last rest := by
  obtain ⟨kind, text⟩ := segment
  cases kind with
  | markup => exact h.scanAt rest
  | plain =>
    obtain ⟨c, hc⟩ := List.exists_mem_of_ne_nil text hne
    rcases hcovered c hc with heq | ⟨heq, -⟩ <;> cases heq
  | shielded =>
    have hspecial : ∀ c ∈ text, c ∉ Segmenter.special := by
      intro c hc
      rcases hcovered c hc with heq | ⟨-, hc⟩
      · cases heq
      · exact hc
    obtain rfl := h.eq_of_not_special hspecial
    cases layers? with
    | none => exact h.scanAt rest
    | some layers =>
      have htext : Balanced text := by
        refine balanced_of_inert fun c hc => ?_
        refine ⟨?_, ?_, ?_, ?_⟩ <;> (rintro rfl; exact hspecial _ hc (by decide))
      cases last with
      | none => exact absurd h.of_none.1 hne
      | some depth => exact (Layers.balanced_wrap (hkeyed layers rfl) htext).sealed depth rest

theorem scan_segments {layers? : Option Layers} (hkeyed : ∀ layers ∈ layers?, layers.Keyed)
    {segments : List Segment} (hne : ∀ segment ∈ segments, segment.text ≠ [])
    (hcovered : ∀ read ∈ Segment.marked segments, Segmenter.Covered read)
    (h : Leads place (Segment.texts segments) last) (rest : Text) :
    scanAt place (textOf (segments.map (segmentPiece layers?)) ++ rest) = scanAt last rest := by
  induction segments generalizing place with
  | nil =>
    cases h
    rfl
  | cons segment segments ih =>
    obtain ⟨hsegment, hne⟩ := List.forall_mem_cons.mp hne
    rw [Segment.marked_cons] at hcovered
    obtain ⟨hfirst, hcovered⟩ := List.forall_mem_append.mp hcovered
    obtain ⟨middle, hfront, hback⟩ := h.cut
    rw [List.map_cons, textOf_cons, List.append_assoc, scan_segmentPiece hkeyed hsegment
      (fun c hc => hfirst _ (List.mem_map_of_mem hc)) hfront, ih hne hcovered hback]

/-- What is rendered from a text leads where the text does. -/
theorem scan_split {layers? : Option Layers} (hkeyed : ∀ layers ∈ layers?, layers.Keyed) {text : Text}
    (h : Leads place text last) (rest : Text) :
    scanAt place (textOf (((Segmenter.inside place).split text).1.map (segmentPiece layers?)) ++ rest) =
      scanAt last rest := by
  have hsegmented := Segmenter.segmented_split (.inside place) text
  refine scan_segments hkeyed hsegmented.ne_nil (Segmenter.split_inside h).2 ?_ rest
  rwa [hsegmented.texts]

theorem Keyed.of_layers? (h : rendering.Keyed) (active : IndexSet) :
    ∀ layers ∈ rendering.layers? active, layers.Keyed :=
  fun _ hlayers => (h.layers hlayers).1

/-- What is rendered from a region leads where the text of the region does. -/
theorem scan_region (hkeyed : rendering.Keyed) {region : Region}
    (h : Leads (some depth) region.text last) (rest : Text) :
    scanInside depth (textOf (rendering.region (.inside (some depth)) region).1 ++ rest) =
      scanAt last rest := by
  rw [region_eq, textOf_append, List.append_assoc, sealed_notes hkeyed]
  exact scan_split (hkeyed.of_layers? region.active) h rest

/-- Regions that lead to the end of an argument are rendered so, and leave nothing open. -/
theorem scan_regions (hkeyed : rendering.Keyed) {middle : List Region} {region : Region}
    (hne : region.text ≠ []) (h : Leads (some depth) (middle.flatMap Region.text ++ region.text) none) :
    scanInside depth (textOf
        (rendering.regionsFrom (.inside (some depth)) (middle ++ [region])).flatten) = .closed [] ∧
      (Segmenter.inside (some depth)).after ((middle ++ [region]).map Region.text) = .start := by
  induction middle generalizing depth with
  | nil =>
    rw [List.flatMap_nil, List.nil_append] at h
    have hscan := scan_region hkeyed h []
    rw [List.append_nil] at hscan
    refine ⟨?_, (Segmenter.split_inside h).1⟩
    rw [List.nil_append, regionsFrom_cons, List.flatten_cons, textOf_append]
    exact (congrArg (scanInside depth) (List.append_nil _)).trans hscan
  | cons first middle ih =>
    rw [List.flatMap_cons, List.append_assoc] at h
    obtain ⟨depth', hfront, hback⟩ := h.cut_of_ne_nil (List.append_ne_nil_of_right_ne_nil _ hne)
    obtain ⟨hscan, hstate⟩ := ih hback
    have hafter := (Segmenter.split_inside hfront).1
    rw [List.cons_append, regionsFrom_cons, List.flatten_cons, textOf_append]
    refine ⟨?_, ?_⟩
    · rw [scan_region hkeyed hfront]
      rw [region_eq, hafter]
      exact hscan
    · rw [List.map_cons, Segmenter.after, List.foldl_cons, hafter]
      exact hstate

/-- Markup in front of segments is written in front of them. -/
theorem textOf_cons_markup (layers? : Option Layers) (text : Text) (segments : List Segment) :
    textOf ((Segment.cons ⟨.markup, text⟩ segments).map (segmentPiece layers?)) =
      text ++ textOf (segments.map (segmentPiece layers?)) := by
  rcases Segment.cons_cases ⟨.markup, text⟩ segments with
    ⟨hnil, heq⟩ | ⟨-, next, rest, rfl, hkind, heq⟩ | ⟨-, -, heq⟩ <;> rw [heq]
  · obtain rfl : text = [] := hnil
    rfl
  · obtain ⟨kind, text'⟩ := next
    obtain rfl : kind = .markup := hkind
    simp only [List.map_cons, textOf_cons, segmentPiece, Piece.toText, List.append_assoc]
  · rw [List.map_cons, textOf_cons]
    rfl

/-- **Wrappers and notes end no bracketed argument early.**  Let the text of a command with a bracketed
argument be cut into regions at places in the argument.  Whatever highlights are open in the regions
and whatever anchors they have, the argument ends at the very end of what is rendered, and nothing is
left open. -/
theorem scanBracket_regions (tags : TagMap) (settings : StyleSettings) (placed : List Placed)
    {name : String} (hne : name ≠ "") (hletters : ∀ c ∈ name.toList, c.isAlpha = true)
    (hverb : name ≠ "verb") (hsymbol : isTextSymbol name = false) {body front back : Text}
    (hbody : ArgumentBody body) {first final : Region} {middle : List Region}
    (hfirst : first.text = '\\' :: (name.toList ++ '[' :: front)) (hfinal : final.text = back ++ [']'])
    (hcut : front ++ (middle.flatMap Region.text ++ back) = body) :
    let rendering := ofPlaced tags settings placed
    let regions := first :: (middle ++ [final])
    (∃ inside, textOf (rendering.regions regions).flatten =
        textOf (rendering.notes first.anchors) ++ '\\' :: (name.toList ++ '[' :: inside) ∧
      scanBracket inside = .closed []) ∧
      Segmenter.start.after (regions.map Region.text) = .start := by
  intro rendering regions
  have hkeyed : rendering.Keyed := keyed_ofPlaced tags settings placed
  have hleads : Leads (some 0) (front ++ (middle.flatMap Region.text ++ final.text)) none := by
    have hleads := hbody.leads
    rwa [← hcut, List.append_assoc, List.append_assoc, ← hfinal] at hleads
  have hfinalNe : final.text ≠ [] := by simp [hfinal]
  obtain ⟨depth, hfront, hback⟩ :=
    hleads.cut_of_ne_nil (List.append_ne_nil_of_right_ne_nil _ hfinalNe)
  -- In the first region the argument is still open.
  have hopen : scanBracket front = .unclosed := by
    have hscan := hfront.scanAt []
    rw [List.append_nil] at hscan
    exact hscan.trans (scanInside_nil depth)
  have hsplit : Segmenter.start.split first.text =
      (Segment.cons ⟨.markup, '\\' :: (name.toList ++ ['['])⟩
        ((Segmenter.inside (some 0)).split front).1, .inside (some depth)) := by
    have hparts : Segmenter.parts .start first.text =
        (⟨.markup, '\\' :: (name.toList ++ ['['])⟩ :: (Segmenter.parts (.inside (some 0)) front).1,
          (Segmenter.parts (.inside (some 0)) front).2) := by
      rw [hfirst, Segmenter.parts, Segmenter.step_command hne hletters hverb hsymbol hopen]
      rfl
    rw [Segmenter.split_of_text rfl, Segmenter.split_of_text rfl, hparts, Segment.ofParts_cons_markup,
      (Segmenter.parts_inside hfront).1]
  obtain ⟨hscan, hstate⟩ := scan_regions hkeyed hfinalNe hback
  refine ⟨⟨textOf (((Segmenter.inside (some 0)).split front).1.map
    (segmentPiece (rendering.layers? first.active))) ++ textOf
      (rendering.regionsFrom (.inside (some depth)) (middle ++ [final])).flatten, ?_, ?_⟩, ?_⟩
  · rw [Rendering.regions, regionsFrom_cons, List.flatten_cons, textOf_append, region_eq, hsplit,
      textOf_append, textOf_cons_markup]
    simp
  · exact (scan_split (hkeyed.of_layers? first.active) hfront _).trans hscan
  · rw [List.map_cons, Segmenter.after, List.foldl_cons, hsplit]
    exact hstate

/-- An argument that is cut around a closing bracket in its braces, with authors that try to end it. -/
theorem scanBracket_regions_item :
    let placed : List Placed :=
      [⟨0, 0, 2, 0, 2, ⟨"first", 0, 2, "x", "]\x7d", ⟨19723, 0, 0⟩, [], none⟩⟩,
        ⟨1, 1, 3, 1, 3, ⟨"second", 1, 3, "y", "\x7d]\\", ⟨19723, 0, 0⟩, [], some "]"⟩⟩]
    let one := IndexSet.empty.insert 0
    let two := one.insert 1
    let body := "a\x7bb]c\x7d d".toList
    let first : Region := ⟨"\\item[a\x7bb".toList, one, [0]⟩
    let middle : List Region :=
      [⟨"]".toList, two, [1, 0]⟩, ⟨[], .empty, [1]⟩, ⟨"c\x7d".toList, two, []⟩]
    let final : Region := ⟨" d]".toList, one, [1]⟩
    let rendering := ofPlaced [] .standard placed
    let regions := first :: (middle ++ [final])
    ArgumentBody body ∧
      regions.flatMap Region.text = '\\' :: ("item".toList ++ '[' :: (body ++ [']'])) ∧
      (∃ inside, textOf (rendering.regions regions).flatten =
          textOf (rendering.notes first.anchors) ++ '\\' :: ("item".toList ++ '[' :: inside) ∧
        scanBracket inside = .closed []) ∧
      Segmenter.start.after (regions.map Region.text) = .start := by
  intro placed one two body first middle final rendering regions
  have hbody : ArgumentBody body := ⟨by decide, by decide, by decide, by decide⟩
  have hcut : "a\x7bb".toList ++ (middle.flatMap Region.text ++ " d".toList) = body := by decide
  exact ⟨hbody, by decide, @scanBracket_regions [] .standard placed "item" (by decide) (by decide)
    (by decide) (by decide) body _ _ hbody first final middle rfl rfl hcut⟩

end Rendering

end Marginalia
