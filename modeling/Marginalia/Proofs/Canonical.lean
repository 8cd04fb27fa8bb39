import Marginalia.Proofs.Segment
import Mathlib.Data.List.Forall2

/-! # Segments are canonical

The segments of a region are joined, trimmed and joined again.  Seen character by character none of
this moves anything (`marked_merge`): a character keeps the kind of the part that it was read in,
unless it is white space that becomes markup (`marked_ofParts`).  So the segments agree with the
bracketed arguments that are open at each character (`Segmenter.depths`).

`Segmenter.Segmented` says all of what a region may rely on.  It holds of every region, whatever the
regions before it leave open (`segmented_walk`).
-/
namespace Marginalia

open Text

namespace Segment

variable {segments parts : List Segment} {kind : Kind}

/-! ### The kinds of characters -/

/-- The characters of the text that segments make up, each with its kind. -/
def marked (segments : List Segment) : List (Kind × Char) :=
  segments.flatMap fun segment => segment.text.map (segment.kind, ·)

@[simp] theorem marked_nil : marked [] = [] := rfl

@[simp] theorem marked_cons (segment : Segment) (segments : List Segment) :
    marked (segment :: segments) = segment.text.map (segment.kind, ·) ++ marked segments := rfl

@[simp] theorem marked_append (ss ts : List Segment) :
    marked (ss ++ ts) = marked ss ++ marked ts :=
  List.flatMap_append

theorem marked_cons' (first : Segment) (segments : List Segment) :
    marked (cons first segments) = marked (first :: segments) := by
  rcases cons_cases first segments with ⟨hnil, heq⟩ | ⟨-, next, rest, rfl, hkind, heq⟩ | ⟨-, -, heq⟩ <;>
    rw [heq]
  · rw [marked_cons, hnil, List.map_nil, List.nil_append]
  · simp only [marked_cons, hkind, List.map_append, List.append_assoc]

theorem marked_merge (segments : List Segment) : marked (merge segments) = marked segments := by
  induction segments with
  | nil => rfl
  | cons segment segments ih =>
    rw [merge, List.foldr_cons, marked_cons', marked_cons, marked_cons, ← ih]
    rfl

/-- A character keeps its kind or becomes markup. -/
def Under (read' read : Kind × Char) : Prop :=
  read'.2 = read.2 ∧ (read'.1 = read.1 ∨ read'.1 = .markup)

theorem marked_under (h : ∀ part ∈ parts, part.kind = kind ∨ part.kind = .markup) :
    List.Forall₂ Under (marked parts) ((texts parts).map (kind, ·)) := by
  induction parts with
  | nil => exact .nil
  | cons part parts ih =>
    obtain ⟨hpart, hparts⟩ := List.forall_mem_cons.mp h
    rw [marked_cons, texts_cons, List.map_append]
    refine List.rel_append ?_ (ih hparts)
    rw [List.forall₂_map_left_iff, List.forall₂_map_right_iff, List.forall₂_same]
    exact fun _ _ => ⟨rfl, hpart⟩

/-- Joining and trimming make no character running text. -/
theorem marked_ofParts (parts : List Segment) :
    List.Forall₂ Under (marked (ofParts parts)) (marked parts) := by
  have htrim (segments : List Segment) :
      List.Forall₂ Under (marked (segments.flatMap trimEdges)) (marked segments) := by
    induction segments with
    | nil => exact .nil
    | cons segment segments ih =>
      rw [List.flatMap_cons, marked_append, marked_cons]
      refine List.rel_append ?_ ih
      have hunder := marked_under fun part => @kind_of_mem_trimEdges segment part
      rwa [texts_trimEdges] at hunder
  rw [ofParts, marked_merge, ← marked_merge parts]
  exact htrim (merge parts)

/-- What holds of all markup and of the characters of the parts holds of those of the segments. -/
theorem forall₂_marked_ofParts {α : Type} {R : Kind × Char → α → Prop} {values : List α}
    (hmarkup : ∀ c value, R (.markup, c) value) (h : List.Forall₂ R (marked parts) values) :
    List.Forall₂ R (marked (ofParts parts)) values := by
  have hunder {marks marks' : List (Kind × Char)} {values : List α}
      (hunder : List.Forall₂ Under marks' marks) (h : List.Forall₂ R marks values) :
      List.Forall₂ R marks' values := by
    induction hunder generalizing values with
    | nil => exact h
    | @cons read' read marks' marks hfirst _ ih =>
      obtain ⟨value, values, hread, hmarks, rfl⟩ := List.forall₂_cons_left_iff.mp h
      refine .cons ?_ (ih hmarks)
      obtain ⟨kind', c'⟩ := read'
      obtain ⟨rfl, rfl | rfl⟩ := hfirst
      · exact hread
      · exact hmarkup _ _
  exact hunder (marked_ofParts parts) h

theorem forall_marked_ofParts {P : Kind × Char → Prop} (hmarkup : ∀ c, P (.markup, c))
    (h : ∀ read ∈ marked parts, P read) : ∀ read ∈ marked (ofParts parts), P read := by
  have hparts : List.Forall₂ (fun read _ => P read ∧ True) (marked parts) (marked parts) :=
    List.forall₂_same.mpr fun read hread => ⟨h read hread, trivial⟩
  exact ((List.forall₂_and_left _ _).mp
    (forall₂_marked_ofParts (fun c _ => ⟨hmarkup c, trivial⟩) hparts)).1

/-! ### A single segment -/

theorem merge_of_kind (h : ∀ part ∈ parts, part.kind = kind) :
    merge parts = cons ⟨kind, texts parts⟩ [] := by
  induction parts with
  | nil => rfl
  | cons part parts ih =>
    obtain ⟨hpart, hparts⟩ := List.forall_mem_cons.mp h
    have hfirst : part = ⟨kind, part.text⟩ := by rw [← hpart]
    have hmerge : merge (part :: parts) = cons part (merge parts) := rfl
    rw [hmerge, ih hparts, hfirst, cons_cons, texts_cons]

/-- Parts of running text of one kind, without a line feed, make one segment. -/
theorem ofParts_of_kind (hkind : kind ≠ .markup) (h : ∀ part ∈ parts, part.kind = kind)
    (hne : texts parts ≠ []) (hline : '\n' ∉ texts parts) : ofParts parts = [⟨kind, texts parts⟩] := by
  have hsingle (text : Text) (hne : text ≠ []) : cons ⟨kind, text⟩ [] = [⟨kind, text⟩] := by
    rw [cons, if_neg (by simpa using hne)]
  obtain ⟨front, kept, back, htrimmed, heq⟩ :=
    @exists_trimmed ⟨kind, texts parts⟩ hkind
  have happend : front ++ (kept ++ back) = texts parts := htrimmed.append
  have hmem := happend ▸ hline
  have hfront : front = [] := by
    by_contra hfront
    exact hmem (List.mem_append_left _ (htrimmed.front_line hfront))
  have hback : back = [] := by
    by_contra hback
    exact hmem (List.mem_append_right _ (List.mem_append_right _ (htrimmed.back_line hback)))
  have hkept : kept = texts parts := by
    rw [← happend, hfront, hback, List.nil_append, List.append_nil]
  rw [ofParts, merge_of_kind h, hsingle _ hne, List.flatMap_singleton, merge, heq, hfront, hback, hkept,
    ← hsingle _ hne]
  rfl

end Segment

namespace Segmenter

open Segment

variable {state : Segmenter} {text : Text} {c : Char}

/-! ### Open bracketed arguments -/

/-- For each character of a text, the bracketed arguments that are open where it is read. -/
def depthsFrom (state : Segmenter) (text : Text) : List (List Nat) :=
  match text with
  | [] => []
  | c :: text =>
    let read := step state c text
    (read.piece.map fun _ => state.brackets) ++ depthsFrom read.state read.rest
termination_by text.length
decreasing_by exact Nat.lt_succ_of_le (reads_step state c text).length_le

/-- For each character of a region's text, the bracketed arguments that are open where it is read. -/
def depths (state : Segmenter) (text : Text) : List (List Nat) :=
  let resumed := resume state text
  (resumed.piece.map fun _ => state.brackets) ++ depthsFrom resumed.state resumed.rest

/-- Running text is plain where no bracketed argument is open and shielded where one is. -/
def Fits (read : Kind × Char) (brackets : List Nat) : Prop :=
  (read.1 = .plain → brackets = []) ∧ (read.1 = .shielded → brackets ≠ [])

theorem fits_textKind (state : Segmenter) (c : Char) : Fits (state.textKind, c) state.brackets := by
  unfold textKind Fits
  cases state.brackets <;> simp

theorem fits_segment (read : Step) (state : Segmenter) :
    List.Forall₂ Fits (read.piece.map ((read.segment state).kind, ·))
      (read.piece.map fun _ => state.brackets) := by
  rw [List.forall₂_map_left_iff, List.forall₂_map_right_iff, List.forall₂_same]
  intro c _
  rw [Step.segment]
  split
  · exact ⟨nofun, nofun⟩
  · exact fits_textKind state c

theorem fits_parts (state : Segmenter) (text : Text) :
    List.Forall₂ Fits (marked (parts state text).1) (depthsFrom state text) := by
  fun_induction parts state text with
  | case1 =>
    rw [depthsFrom]
    exact .nil
  | case2 state c text read after ih =>
    rw [depthsFrom, marked_cons]
    exact List.rel_append (fits_segment read state) ih

/-- The kinds of a region's characters agree with the bracketed arguments that are open. -/
theorem fits_split (state : Segmenter) (text : Text) :
    List.Forall₂ Fits (marked (state.split text).1) (state.depths text) := by
  refine forall₂_marked_ofParts (fun _ _ => ⟨nofun, nofun⟩) ?_
  rw [marked_cons]
  exact List.rel_append (fits_segment _ state) (fits_parts _ _)

/-! ### Text without markup -/

/-- The characters that begin or end markup. -/
def special : Text :=
  ['\\', '\x7b', '\x7d', '[', ']', '&', '%', '$']

/-- Any other character is running text, unless it begins white space that breaks the paragraph. -/
theorem step_of_not_special (hc : c ∉ special) : step state c text =
    if isTexBlank c then
      ⟨2 ≤ (c :: text.takeWhile isTexBlank).count '\n', c :: text.takeWhile isTexBlank,
        text.dropWhile isTexBlank, state⟩
    else ⟨false, [c], text, state⟩ := by
  unfold step
  split
  case h_9 => rfl
  all_goals exact absurd (by decide) hc

theorem kind_of_not_special (h : ∀ d ∈ text, d ∉ special) (hline : '\n' ∉ text) :
    ∀ part ∈ (parts state text).1, part.kind = state.textKind := by
  fun_induction parts state text with
  | case1 => exact fun part hpart => absurd hpart List.not_mem_nil
  | case2 state c text read after ih =>
    have hread : read.isMarkup = false ∧ read.state = state := by
      have hcount : (c :: text.takeWhile isTexBlank).count '\n' = 0 := by
        refine List.count_eq_zero.mpr fun hmem => hline ?_
        exact ((List.prefix_cons_inj c).mpr (List.takeWhile_prefix isTexBlank)).mem hmem
      rw [show read = _ from step_of_not_special (h c List.mem_cons_self)]
      split
      · exact ⟨by simp [hcount], rfl⟩
      · exact ⟨rfl, rfl⟩
    have hrest : ∀ d ∈ read.rest, d ∈ c :: text := by
      intro d hd
      rw [← (reads_step state c text).append]
      exact List.mem_append_right _ hd
    refine List.forall_mem_cons.mpr ⟨?_, fun part hpart => ?_⟩
    · exact if_neg (by simp [hread.1])
    · rw [ih (fun d hd => h d (hrest d hd)) (fun hmem => hline (hrest _ hmem)) part hpart, hread.2]

/-- Where no markup is open, the parts are those of the whole text. -/
theorem split_of_text (hmode : state.mode = .text) (text : Text) :
    state.split text = (ofParts (parts state text).1, (parts state text).2) := by
  obtain ⟨mode, brackets⟩ := state
  obtain rfl : mode = .text := hmode
  rfl

/-! ### A run of regions -/

/-- What the segments of a text are when the text is read in a state. -/
structure Segmented (state : Segmenter) (text : Text) (segments : List Segment) : Prop where
  /-- The segments make up the text. -/
  texts : Segment.texts segments = text
  /-- No segment is empty. -/
  ne_nil : ∀ segment ∈ segments, segment.text ≠ []
  /-- Neighbours are of different kinds. -/
  alternating : Alternating segments
  /-- Running text has no line feed in the white space at its edges. -/
  edged : OnText Edged segments
  /-- Plain text stands where no bracketed argument is open, shielded text where one is. -/
  fits : List.Forall₂ Fits (marked segments) (state.depths text)
  /-- A text without markup and line feeds is one segment of running text, unless the region before
  leaves markup open. -/
  single : state.mode = .text → text ≠ [] → (∀ c ∈ text, c ∉ special) → '\n' ∉ text →
    segments = [⟨state.textKind, text⟩]

theorem textKind_ne_markup (state : Segmenter) : state.textKind ≠ .markup := by
  unfold textKind
  split <;> simp

theorem segmented_split (state : Segmenter) (text : Text) :
    Segmented state text (state.split text).1 where
  texts := split_append state text
  ne_nil := fun _ => text_ne_nil_of_mem_merge
  alternating := alternating_merge _
  edged := onText_edged _
  fits := fits_split state text
  single := by
    intro hmode hne hspecial hline
    have htexts : Segment.texts (parts state text).1 = text := texts_parts state text
    rw [split_of_text hmode]
    conv_rhs => rw [← htexts]
    refine ofParts_of_kind (textKind_ne_markup state) (kind_of_not_special hspecial hline) ?_ ?_ <;>
      rwa [htexts]

/-- The segments of texts that are read one after the other, each with what is open before it. -/
def walk (state : Segmenter) : List Text → List (Segmenter × List Segment)
  | [] => []
  | text :: texts =>
    let read := state.split text
    (state, read.1) :: walk read.2 texts

/-- **Segments are canonical.**  Whatever is open before a row of texts and whatever the texts leave
open, the segments of each text make it up, none is empty and neighbours differ in kind; running text
has no line feed in the white space at its edges, is plain where no bracketed argument is open and
shielded where one is; and a text without markup and line feeds is one segment of running text, unless
mathematics, verbatim text or an argument without text is open before it. -/
theorem segmented_walk (state : Segmenter) (texts : List Text) :
    List.Forall₂ (fun text read => Segmented read.1 text read.2) texts (state.walk texts) := by
  induction texts generalizing state with
  | nil => exact .nil
  | cons text texts ih => exact .cons (segmented_split state text) (ih _)

/-- A bracketed argument over three texts. -/
example :
    (start.walk ["\\item[a\n".toList, "b c".toList, "]\n d\n\n".toList]).map Prod.snd =
      [[⟨.markup, "\\item[".toList⟩, ⟨.shielded, "a".toList⟩, ⟨.markup, "\n".toList⟩],
        [⟨.shielded, "b c".toList⟩],
        [⟨.markup, "]\n ".toList⟩, ⟨.plain, "d".toList⟩, ⟨.markup, "\n\n".toList⟩]] := by
  decide +kernel

end Segmenter

end Marginalia
