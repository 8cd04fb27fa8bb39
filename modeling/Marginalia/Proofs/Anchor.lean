import Marginalia.Proofs.Overlap

/-! # Every highlight has its note

Anchors wait until a literal comes, or the end of the text.  None is lost on the way and none comes
twice: the regions of tokens hold the anchors of the tokens in their order (`flatMap_anchors`), and
rendering them gives a note for each anchor that is known, in this order (`filter_isNote_regions`).
In a text that passes the round trip, the anchors are those of all highlights, each once, and all are
known (`notes_of_readBack`).
-/
namespace Marginalia

open Text Sentinel

/-- The highlight of a mark that is an anchor. -/
def Sentinel.anchor? : Kind × Nat → Option Nat
  | (.anchor, index) => some index
  | _ => none

/-- The highlights whose anchors are among marks, in order. -/
def Sentinel.anchors (marks : List (Kind × Nat)) : List Nat :=
  marks.filterMap anchor?

theorem Sentinel.mem_anchors {marks : List (Kind × Nat)} {index : Nat} :
    index ∈ anchors marks ↔ (.anchor, index) ∈ marks := by
  constructor
  · intro h
    obtain ⟨⟨kind, i⟩, hmem, hanchor⟩ := List.mem_filterMap.mp h
    cases kind with
    | start => cases hanchor
    | stop => cases hanchor
    | anchor =>
      obtain rfl := Option.some.inj hanchor
      exact hmem
  · intro h
    exact List.mem_filterMap.mpr ⟨_, h, rfl⟩

/-- The anchors among whole marks are those of all highlights, each once. -/
theorem Token.Intact.perm_anchors {expected : Nat} {marks : List (Kind × Nat)}
    (h : Intact expected marks) : (anchors marks).Perm (List.range expected) := by
  have hnodup : (anchors marks).Nodup := by
    refine List.Nodup.filterMap ?_ (intact_iff.mp h).1.1
    rintro ⟨kind, i⟩ ⟨kind', i'⟩ j hj hj'
    cases kind <;> cases hj
    cases kind' <;> cases hj'
    rfl
  refine (List.perm_ext_iff_of_nodup hnodup List.nodup_range).mpr fun i => ?_
  rw [mem_anchors, List.mem_range]
  constructor
  · intro hmem
    exact h.bounded _ _ hmem
  · intro hlt
    exact List.count_pos_iff.mp (by rw [h.once i hlt .anchor]; exact Nat.one_pos)

/-! ### Regions -/

/-- The regions of tokens hold the anchors that wait and then those of the tokens. -/
theorem Region.flatMap_anchors_from (active : IndexSet) (waiting : List Nat) (tokens : List Token) :
    (ofTokensFrom active waiting tokens).flatMap Region.anchors =
      waiting ++ Sentinel.anchors (Token.marks tokens) := by
  induction tokens generalizing active waiting with
  | nil =>
    unfold ofTokensFrom
    split
    · next hnone =>
      rw [List.isEmpty_iff.mp hnone]
      rfl
    · simp [Sentinel.anchors]
  | cons token tokens ih =>
    cases token with
    | text literal =>
      rw [ofTokensFrom, List.flatMap_cons, ih, List.nil_append, Token.marks_text]
    | mark kind index =>
      rw [Token.marks_mark]
      cases kind with
      | start => exact ih _ _
      | stop => exact ih _ _
      | anchor =>
        rw [ofTokensFrom, ih, List.append_assoc]
        rfl

theorem Region.flatMap_anchors (tokens : List Token) :
    (ofTokens tokens).flatMap Region.anchors = Sentinel.anchors (Token.marks tokens) :=
  flatMap_anchors_from .empty [] tokens

/-! ### Notes -/

namespace Rendering

variable {rendering : Rendering}

/-- Whether the piece is a note. -/
def Piece.isNote : Piece → Bool
  | note _ _ => true
  | _ => false

theorem notes_append (rendering : Rendering) (anchors anchors' : List Nat) :
    rendering.notes (anchors ++ anchors') = rendering.notes anchors ++ rendering.notes anchors' := by
  rw [notes, List.filterMap_append]
  rfl

theorem filter_isNote_notes (rendering : Rendering) (anchors : List Nat) :
    (rendering.notes anchors).filter Piece.isNote = rendering.notes anchors := by
  refine List.filter_eq_self.mpr fun piece hpiece => ?_
  obtain ⟨index, -, hnote⟩ := List.mem_filterMap.mp hpiece
  obtain ⟨found, -, rfl⟩ := Option.map_eq_some_iff.mp hnote
  rfl

/-- Text gives no notes. -/
theorem isNote_segmentPiece (layers? : Option Layers) (segment : Segment) :
    (segmentPiece layers? segment).isNote = false := by
  unfold segmentPiece
  split <;> rfl

/-- The notes of a region are those of its anchors. -/
theorem filter_isNote_region (rendering : Rendering) (state : Segmenter) (region : Region) :
    (rendering.region state region).1.filter Piece.isNote = rendering.notes region.anchors := by
  have hsegments : ((state.split region.text).1.map
      (segmentPiece (rendering.layers? region.active))).filter Piece.isNote = [] := by
    refine List.filter_eq_nil_iff.mpr fun piece hpiece => ?_
    obtain ⟨segment, -, rfl⟩ := List.mem_map.mp hpiece
    rw [isNote_segmentPiece]
    exact Bool.false_ne_true
  rw [region_eq, List.filter_append, filter_isNote_notes, hsegments, List.append_nil]

/-- The notes of regions are those of their anchors, in order, whatever is left open between them. -/
theorem filter_isNote_regionsFrom (rendering : Rendering) (state : Segmenter)
    (regions : List Region) :
    (rendering.regionsFrom state regions).flatten.filter Piece.isNote =
      rendering.notes (regions.flatMap Region.anchors) := by
  induction regions generalizing state with
  | nil => rfl
  | cons region regions ih =>
    rw [regionsFrom_cons, List.flatten_cons, List.filter_append, filter_isNote_region, ih,
      List.flatMap_cons, notes_append]

theorem filter_isNote_regions (rendering : Rendering) (tokens : List Token) :
    (rendering.regions (Region.ofTokens tokens)).flatten.filter Piece.isNote =
      rendering.notes (anchors (Token.marks tokens)) := by
  rw [regions, filter_isNote_regionsFrom, Region.flatMap_anchors]

/-- The piece is the note of the highlight in place with the index, in the style of its tag. -/
def NoteOf (rendering : Rendering) (index : Nat) (piece : Piece) : Prop :=
  ∃ placed style, rendering.placed[index]? = some placed ∧
    rendering.styles.find? placed.highlight.tag = some style ∧
    piece = .note index (Note.toText placed.highlight style)

theorem noteOf_of_find? {index : Nat} {highlight : Highlight} {style : TagStyle}
    (h : rendering.find? index = some (highlight, style)) :
    rendering.NoteOf index (.note index (Note.toText highlight style)) := by
  obtain ⟨placed, hplaced, h⟩ := Option.bind_eq_some_iff.mp h
  obtain ⟨style', hstyle, h⟩ := Option.bind_eq_some_iff.mp h
  obtain ⟨rfl, rfl⟩ := Prod.mk.inj (Option.some.inj h)
  exact ⟨placed, style', hplaced, hstyle, rfl⟩

/-- Anchors that are known have a note each. -/
theorem forall₂_notes {anchors : List Nat}
    (hknown : ∀ index ∈ anchors, ∃ found, rendering.find? index = some found) :
    List.Forall₂ rendering.NoteOf anchors (rendering.notes anchors) := by
  induction anchors with
  | nil => exact .nil
  | cons index anchors ih =>
    obtain ⟨⟨⟨highlight, style⟩, hfind⟩, hrest⟩ := List.forall_mem_cons.mp hknown
    have hcons : rendering.notes (index :: anchors) =
        .note index (Note.toText highlight style) :: rendering.notes anchors := by
      refine List.filterMap_cons_some ?_
      rw [hfind]
      rfl
    rw [hcons]
    exact .cons (noteOf_of_find? hfind) (ih hrest)

/-- **Every highlight has its note.**  In a text that passes the round trip the anchors are those of
the highlights in place, each once.  Rendering it writes their notes and no others, in the order in
which the anchors stand in the text, and warns of none. -/
theorem notes_of_readBack {text : Text} {placed : List Placed} {tokens : List Token} (tags : TagMap)
    (settings : StyleSettings) (hread : Token.ofText text = .ok tokens)
    (hcheck : Token.checkRoundTrip tokens placed.length = .ok ()) :
    let rendering := ofPlaced tags settings placed
    let anchors := anchors (Marked.ofText text).marks
    anchors.Perm (List.range placed.length) ∧
      List.Forall₂ rendering.NoteOf anchors
        ((rendering.regions (Region.ofTokens tokens)).flatten.filter Piece.isNote) ∧
      rendering.warnings (Region.ofTokens tokens) = [] := by
  intro rendering anchors
  have hmarks : Token.marks tokens = (Marked.ofText text).marks := Token.marks_of_ofText hread
  have hperm : anchors.Perm (List.range placed.length) :=
    (hmarks ▸ Token.intact_of_readBack hread hcheck).perm_anchors
  have hknown : ∀ index ∈ anchors, ∃ found, rendering.find? index = some found := by
    intro index hindex
    obtain ⟨style, hfind⟩ := exists_find?_ofPlaced tags settings
      (List.mem_range.mp (hperm.mem_iff.mp hindex))
    exact ⟨_, hfind⟩
  refine ⟨hperm, ?_, ?_⟩
  · rw [filter_isNote_regions, hmarks]
    exact forall₂_notes hknown
  · rw [warnings, Region.flatMap_anchors, hmarks, List.map_eq_nil_iff, List.filter_eq_nil_iff]
    intro index hindex
    obtain ⟨found, hfind⟩ := hknown index hindex
    rw [hfind]
    exact Bool.false_ne_true

/-- Two anchors in a row, in the order that the highlights do not have, and one behind all text. -/
theorem notes_of_readBack_trailing :
    let text := ("ANNMARKER1ENDMARKERANNMARKER0ENDMARKERHLSTART0ENDHLHLSTART1ENDHLa" ++
      "HLEND1ENDHLHLSTART2ENDHLbHLEND0ENDHLHLEND2ENDHLANNMARKER2ENDMARKER").toList
    let tokens : List Token := [.mark .anchor 1, .text [], .mark .anchor 0, .text [],
      .mark .start 0, .text [], .mark .start 1, .text ['a'], .mark .stop 1, .text [],
      .mark .start 2, .text ['b'], .mark .stop 0, .text [], .mark .stop 2, .text [],
      .mark .anchor 2]
    let placed : List Placed :=
      [⟨0, 0, 2, 0, 2, ⟨"first", 0, 2, "x", "", ⟨19723, 0, 0⟩, [], none⟩⟩,
        ⟨1, 0, 1, 0, 1, ⟨"second", 0, 1, "y", "", ⟨19723, 0, 0⟩, [], none⟩⟩,
        ⟨2, 1, 2, 1, 2, ⟨"third", 1, 2, "x", "", ⟨19723, 0, 0⟩, [], none⟩⟩]
    let rendering := ofPlaced [] .standard placed
    Token.ofText text = .ok tokens ∧ Token.checkRoundTrip tokens placed.length = .ok () ∧
      anchors (Marked.ofText text).marks = [1, 0, 2] ∧
      List.Forall₂ rendering.NoteOf (anchors (Marked.ofText text).marks)
        ((rendering.regions (Region.ofTokens tokens)).flatten.filter Piece.isNote) ∧
      rendering.warnings (Region.ofTokens tokens) = [] := by
  intro text tokens placed rendering
  have hread : Token.ofText text = .ok tokens := by decide +kernel
  have hcheck : Token.checkRoundTrip tokens placed.length = .ok () := by decide +kernel
  obtain ⟨-, hnotes, hwarnings⟩ := notes_of_readBack [] .standard hread hcheck
  exact ⟨hread, hcheck, by decide +kernel, hnotes, hwarnings⟩

end Rendering

end Marginalia
