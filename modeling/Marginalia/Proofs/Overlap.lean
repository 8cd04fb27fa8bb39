import Marginalia.Proofs.RoundTrip
import Marginalia.Proofs.Segment
import Marginalia.Rendering

/-! # Wrappers show which highlights overlap

The rendering of a text that was read back goes literal by literal: each literal gives the notes that
wait for it and then one piece for each of its segments (`exists_rows`).  What is running text stands in
the wrappers of the highlights whose start comes before the literal and whose end comes after it; what
is not, and literals that no highlight covers, stay as they are (`rows_of_readBack`).

The open highlights are kept as a set, so neither the order of their marks nor how they cross matters:
the lower index is outside (`toList_openAfter`, `layers?_cases`).
-/
namespace Marginalia

open Text Sentinel

/-! ### The styles of the tags in use -/

namespace StyleTable

theorem mem_insertTag {tag t : String} {tags : List String} :
    t ∈ insertTag tag tags ↔ t = tag ∨ t ∈ tags := by
  induction tags with
  | nil => simp [insertTag]
  | cons first tags ih =>
    rw [insertTag]
    split
    · simp
    · split
      · next h => simp [h]
      · rw [List.mem_cons, ih, List.mem_cons]
        tauto

theorem mem_sortTags {t : String} {tags : List String} : t ∈ sortTags tags ↔ t ∈ tags := by
  have hfold (sorted : List String) :
      t ∈ tags.foldl (fun sorted tag => insertTag tag sorted) sorted ↔ t ∈ tags ∨ t ∈ sorted := by
    induction tags generalizing sorted with
    | nil => simp
    | cons first tags ih =>
      rw [List.foldl_cons, ih, mem_insertTag, List.mem_cons]
      tauto
  rw [sortTags, hfold]
  simp

/-- A tag in use has a style. -/
theorem isSome_find?_ofTags (tags : TagMap) (settings : StyleSettings) {used : List String}
    {tag : String} (h : tag ∈ used) : ((ofTags tags settings used).find? tag).isSome = true := by
  have hlookup (taken : List Text) (sorted : List String) (hmem : tag ∈ sorted) :
      ((stylesFrom tags settings taken sorted).lookup tag).isSome = true := by
    induction sorted generalizing taken with
    | nil => cases hmem
    | cons first rest ih =>
      rw [stylesFrom, List.lookup_cons]
      split
      · rfl
      · next hne =>
        rcases List.mem_cons.mp hmem with rfl | hmem
        · simp at hne
        · exact ih _ hmem
  exact hlookup [] _ (mem_sortTags.mpr h)

end StyleTable

/-- The rendering of a document with the given highlights in place: it has the styles of their
tags. -/
def Rendering.ofPlaced (tags : TagMap) (settings : StyleSettings) (placed : List Placed) :
    Rendering :=
  ⟨placed.toArray, .ofTags tags settings (placed.map fun p => p.highlight.tag)⟩

/-- Every highlight in place has a style. -/
theorem Rendering.exists_find?_ofPlaced (tags : TagMap) (settings : StyleSettings)
    {placed : List Placed} {i : Nat} (h : i < placed.length) :
    ∃ style, (ofPlaced tags settings placed).find? i = some (placed[i].highlight, style) := by
  have htag : placed[i].highlight.tag ∈ placed.map fun p => p.highlight.tag :=
    List.mem_map.mpr ⟨placed[i], List.getElem_mem h, rfl⟩
  obtain ⟨style, hstyle⟩ := Option.isSome_iff_exists.mp
    (StyleTable.isSome_find?_ofTags tags settings htag)
  refine ⟨style, ?_⟩
  simp only [find?, ofPlaced, List.getElem?_toArray, List.getElem?_eq_getElem h]
  simp [hstyle]

/-! ### The highlights over a literal -/

namespace Token

/-- The marks that pass the round trip are whole. -/
theorem intact_of_readBack {text : Text} {tokens : List Token} {expected : Nat}
    (hread : ofText text = .ok tokens) (hcheck : checkRoundTrip tokens expected = .ok ()) :
    Intact expected (marks tokens) := by
  rw [intact_iff, ← checkRoundTrip_eq_ok_iff, marks_of_ofText hread]
  exact ⟨exists_ofText_iff.mp ⟨tokens, hread⟩, hcheck⟩

/-- A literal among tokens, with the tokens before it and after it. -/
structure Cut where
  before : List Token
  literal : Text
  after : List Token

/-- The literals of tokens that come after others. -/
def cutsFrom (before : List Token) : List Token → List Cut
  | [] => []
  | .text t :: after => ⟨before, t, after⟩ :: cutsFrom (before ++ [.text t]) after
  | .mark kind i :: after => cutsFrom (before ++ [.mark kind i]) after

/-- The literals of tokens, in order. -/
def cuts (tokens : List Token) : List Cut :=
  cutsFrom [] tokens

theorem flatMap_literal_cutsFrom (before tokens : List Token) :
    (cutsFrom before tokens).flatMap Cut.literal = literals tokens := by
  induction tokens generalizing before with
  | nil => rfl
  | cons token tokens ih =>
    cases token with
    | text t => rw [cutsFrom, List.flatMap_cons, ih, literals_text]
    | mark kind i => exact ih _

theorem append_of_mem_cutsFrom {before tokens : List Token} {cut : Cut}
    (h : cut ∈ cutsFrom before tokens) :
    before ++ tokens = cut.before ++ .text cut.literal :: cut.after := by
  induction tokens generalizing before with
  | nil => cases h
  | cons token tokens ih =>
    rw [← List.singleton_append, ← List.append_assoc]
    cases token with
    | text t =>
      rcases List.mem_cons.mp h with rfl | h
      · rw [List.append_assoc]
        rfl
      · exact ih h
    | mark kind i => exact ih h

/-- The highlights over a literal, of those below `expected`: each starts before it and ends after
it. -/
def Cut.highlights (cut : Cut) (expected : Nat) : List Nat :=
  (List.range expected).filter fun i => (.start, i) ∈ marks cut.before ∧ (.stop, i) ∈ marks cut.after

theorem Cut.mem_highlights {expected : Nat} {cut : Cut}
    (h : Intact expected (marks cut.before ++ marks cut.after)) {i : Nat} :
    i ∈ cut.highlights expected ↔ (.start, i) ∈ marks cut.before ∧ (.stop, i) ∈ marks cut.after := by
  rw [Cut.highlights, List.mem_filter, List.mem_range, decide_eq_true_eq, and_iff_right_iff_imp]
  exact fun hmem => h.bounded _ i (List.mem_append_left _ hmem.1)

/-- Ascending lists with the same entries are the same. -/
theorem eq_of_ascending {is js : List Nat} (his : is.Pairwise (· < ·)) (hjs : js.Pairwise (· < ·))
    (h : ∀ i, i ∈ is ↔ i ∈ js) : is = js := by
  have hperm : is.Perm js :=
    (List.perm_ext_iff_of_nodup (his.imp Nat.ne_of_lt) (hjs.imp Nat.ne_of_lt)).mpr h
  refine hperm.eq_of_pairwise (fun i j _ _ hij hji => ?_) his hjs
  omega

/-- The set that is kept of open highlights holds those over the literal. -/
theorem toList_openAfter {expected : Nat} {cut : Cut}
    (h : Intact expected (marks cut.before ++ marks cut.after)) :
    (IndexSet.empty.openAfter (marks cut.before)).toList = cut.highlights expected := by
  obtain ⟨⟨hnodup, hpaired⟩, -⟩ := intact_iff.mp h
  refine eq_of_ascending (IndexSet.ascending _) (List.pairwise_lt_range.filter _) fun i => ?_
  rw [← IndexSet.mem_def, IndexSet.mem_openAfter hpaired]
  refine Iff.trans (and_congr_right fun hstart => ?_) (Cut.mem_highlights h).symm
  constructor
  · intro hopen
    have hstop := (hpaired.partner i).mp (List.mem_append_left _ hstart)
    exact (List.mem_append.mp hstop).resolve_left hopen
  · intro hstop hclosed
    exact (List.nodup_append.mp hnodup).2.2 _ hclosed _ hstop rfl

end Token

/-- What is open after tokens. -/
def Segmenter.afterTokens (state : Segmenter) : List Token → Segmenter
  | [] => state
  | .text t :: tokens => afterTokens (state.split t).2 tokens
  | .mark _ _ :: tokens => afterTokens state tokens

theorem Segmenter.afterTokens_append (state : Segmenter) (before after : List Token) :
    state.afterTokens (before ++ after) = (state.afterTokens before).afterTokens after := by
  induction before generalizing state with
  | nil => rfl
  | cons token before ih => cases token <;> exact ih _

/-- The segments of a literal, with what the literals before it have left open. -/
def Token.Cut.segments (cut : Cut) : List Segment :=
  ((Segmenter.start.afterTokens cut.before).split cut.literal).1

/-! ### The wrappers of highlights -/

namespace Rendering

variable {rendering : Rendering}

/-- How highlights show on a text, given in the order of their indices.  One has a background and a
line in its style; two have a background and a line each, those of the first outside; three or more
share one background and one line. -/
inductive Shows (rendering : Rendering) (text : Text) : List Nat → Text → Prop
  | one {i : Nat} {highlight : Highlight} {style : TagStyle}
      (h : rendering.find? i = some (highlight, style)) :
      Shows rendering text [i]
        (Layers.highLight style.light (Layers.underLine style.dark ['1'] ['-', '3'] text))
  | two {i j : Nat} {outer inner : Highlight} {style style' : TagStyle} (hlt : i < j)
      (h : rendering.find? i = some (outer, style))
      (h' : rendering.find? j = some (inner, style')) :
      Shows rendering text [i, j]
        (Layers.highLight style.light (Layers.highLight style'.light
          (Layers.underLine style.dark ['2'] ['-', '3']
            (Layers.underLine style'.dark ['1'] ['-', '5'] text))))
  | many {covering : List Nat} (h : 3 ≤ covering.length) :
      Shows rendering text covering
        (Layers.highLight "many-light".toList
          (Layers.underLine "many-dark".toList ['4'] ['-', '5'] text))

/-- The layers for a set of known highlights show them, and there are none if the set is empty. -/
theorem layers?_cases {active : IndexSet}
    (hknown : ∀ i ∈ active, ∃ found, rendering.find? i = some found) :
    (active.toList = [] ∧ rendering.layers? active = none) ∨
      active.toList ≠ [] ∧ ∃ layers, rendering.layers? active = some layers ∧
        ∀ text, rendering.Shows text active.toList (layers.wrap text) := by
  obtain ⟨indices, hascending⟩ := active
  cases indices with
  | nil => exact .inl ⟨rfl, rfl⟩
  | cons i indices =>
    refine .inr ⟨List.cons_ne_nil _ _, ?_⟩
    obtain ⟨⟨highlight, style⟩, hi⟩ := hknown i List.mem_cons_self
    cases indices with
    | nil =>
      refine ⟨.one style, ?_, fun text => .one hi⟩
      simp [layers?, IndexSet.size, hi]
    | cons j indices =>
      obtain ⟨⟨highlight', style'⟩, hj⟩ := hknown j (List.mem_cons_of_mem _ List.mem_cons_self)
      cases indices with
      | nil =>
        have hlt : i < j := (List.pairwise_cons.mp hascending).1 j List.mem_cons_self
        refine ⟨.two style style', ?_, fun text => .two hlt hi hj⟩
        simp [layers?, IndexSet.size, hi, hj]
      | cons k indices =>
        refine ⟨.many, ?_, fun text => .many ?_⟩
        · simp [layers?, IndexSet.size]
        · simp

/-- The piece that a segment becomes under highlights: running text that they cover stands in their
wrappers, with braces around these where it is shielded, and everything else stays as it is. -/
inductive Shown (rendering : Rendering) (covering : List Nat) : Segment → Piece → Prop
  | verbatim {segment : Segment} (h : segment.kind = .markup ∨ covering = []) :
      Shown rendering covering segment (.verbatim segment.text)
  | wrapped {segment : Segment} {layers : Layers} (hkind : segment.kind ≠ .markup)
      (hcovered : covering ≠ [])
      (h : rendering.Shows segment.text covering (layers.wrap segment.text)) :
      Shown rendering covering segment
        (.wrapped layers (segment.kind = .shielded) segment.text)

theorem shown_segmentPiece {active : IndexSet}
    (hknown : ∀ i ∈ active, ∃ found, rendering.find? i = some found) (segment : Segment) :
    rendering.Shown active.toList segment (segmentPiece (rendering.layers? active) segment) := by
  obtain ⟨kind, text⟩ := segment
  rcases layers?_cases hknown with ⟨hnil, hnone⟩ | ⟨hne, layers, hsome, hshows⟩
  · rw [hnone]
    have hpiece : segmentPiece none ⟨kind, text⟩ = .verbatim text := by cases kind <;> rfl
    rw [hpiece]
    exact @Shown.verbatim _ _ ⟨kind, text⟩ (.inr hnil)
  · rw [hsome]
    cases kind with
    | markup => exact @Shown.verbatim _ _ ⟨.markup, text⟩ (.inl rfl)
    | plain => exact @Shown.wrapped _ _ ⟨.plain, text⟩ _ (by simp) hne (hshows text)
    | shielded => exact @Shown.wrapped _ _ ⟨.shielded, text⟩ _ (by simp) hne (hshows text)

theorem Shown.literal {covering : List Nat} {segment : Segment} {piece : Piece}
    (h : rendering.Shown covering segment piece) : piece.literal = segment.text := by
  cases h <;> rfl

end Rendering

/-! ### Literal by literal -/

/-- A text without characters has no segments. -/
theorem Segmenter.split_nil (state : Segmenter) : (state.split []).1 = [] := by
  have htexts := Segmenter.split_append state []
  rw [Segment.texts, List.flatMap_eq_nil_iff] at htexts
  refine List.eq_nil_iff_forall_not_mem.mpr fun segment hmem => ?_
  exact Segment.text_ne_nil_of_mem_merge hmem (htexts segment hmem)

namespace Rendering

variable {rendering : Rendering} {tokens : List Token} {cut : Token.Cut} {expected : Nat}

theorem literal_notes (rendering : Rendering) (anchors : List Nat) :
    (rendering.notes anchors).flatMap Piece.literal = [] := by
  rw [List.flatMap_eq_nil_iff]
  intro piece hpiece
  obtain ⟨index, -, hnote⟩ := List.mem_filterMap.mp hpiece
  obtain ⟨found, -, rfl⟩ := Option.map_eq_some_iff.mp hnote
  rfl

theorem region_eq (rendering : Rendering) (state : Segmenter) (region : Region) :
    rendering.region state region =
      (rendering.notes region.anchors ++
        (state.split region.text).1.map (segmentPiece (rendering.layers? region.active)),
        (state.split region.text).2) := rfl

theorem regionsFrom_cons (rendering : Rendering) (state : Segmenter) (region : Region)
    (regions : List Region) : rendering.regionsFrom state (region :: regions) =
      (rendering.region state region).1 ::
        rendering.regionsFrom (rendering.region state region).2 regions := rfl

/-- The regions of tokens are rendered literal by literal; anchors after the last literal give their
notes. -/
theorem exists_rows (rendering : Rendering) (before tokens : List Token) (anchors : List Nat) :
    ∃ rows trailing waiting,
      rendering.regionsFrom (Segmenter.start.afterTokens before)
          (Region.ofTokensFrom (IndexSet.empty.openAfter (Token.marks before)) anchors tokens) =
        rows ++ trailing ∧
      List.Forall₂ (fun cut row => ∃ anchors, row = rendering.notes anchors ++
          cut.segments.map (segmentPiece
            (rendering.layers? (IndexSet.empty.openAfter (Token.marks cut.before)))))
        (Token.cutsFrom before tokens) rows ∧
      trailing.flatten = rendering.notes waiting := by
  induction tokens generalizing before anchors with
  | nil =>
    unfold Region.ofTokensFrom
    split
    · exact ⟨[], [], [], rfl, .nil, rfl⟩
    · refine ⟨[], _, anchors, regionsFrom_cons .., .nil, ?_⟩
      rw [region_eq, Segmenter.split_nil]
      simp [regionsFrom]
  | cons token tokens ih =>
    cases token with
    | text t =>
      obtain ⟨rows, trailing, waiting, heq, hrows, htrailing⟩ := ih (before ++ [.text t]) []
      have hmarks : Token.marks (before ++ [.text t]) = Token.marks before := by simp
      rw [hmarks, Segmenter.afterTokens_append] at heq
      refine ⟨_ :: rows, trailing, waiting, ?_, .cons ⟨anchors, rfl⟩ hrows, htrailing⟩
      rw [Region.ofTokensFrom, regionsFrom, List.cons_append, ← heq]
      rfl
    | mark kind i =>
      have hstep : Token.marks (before ++ [.mark kind i]) = Token.marks before ++ [(kind, i)] := by
        simp
      have hstate : Segmenter.start.afterTokens (before ++ [.mark kind i]) =
          Segmenter.start.afterTokens before := by
        rw [Segmenter.afterTokens_append]
        rfl
      have hrest (anchors : List Nat) := ih (before ++ [.mark kind i]) anchors
      simp only [hstep, hstate, IndexSet.openAfter_append] at hrest
      cases kind with
      | start => exact hrest anchors
      | stop => exact hrest anchors
      | anchor => exact hrest (anchors ++ [i])

/-- What a literal gives: the notes of some anchors, and then a piece for each of its segments. -/
def RowOf (rendering : Rendering) (expected : Nat) (cut : Token.Cut) (row : List Piece) : Prop :=
  ∃ anchors pieces, row = rendering.notes anchors ++ pieces ∧
    List.Forall₂ (rendering.Shown (cut.highlights expected)) cut.segments pieces

theorem RowOf.literal {row : List Piece} (h : rendering.RowOf expected cut row) :
    row.flatMap Piece.literal = cut.literal := by
  obtain ⟨anchors, pieces, rfl, hpieces⟩ := h
  rw [List.flatMap_append, literal_notes, List.nil_append]
  have htexts : pieces.flatMap Piece.literal = Segment.texts cut.segments := by
    generalize cut.segments = segments at hpieces
    induction hpieces with
    | nil => rfl
    | cons hshown _ ih => rw [List.flatMap_cons, ih, hshown.literal, Segment.texts_cons]
  rw [htexts]
  exact Segmenter.split_append _ _

theorem literals_of_rows {cuts : List Token.Cut} {rows : List (List Piece)}
    (h : List.Forall₂ (fun cut row => row.flatMap Piece.literal = cut.literal) cuts rows) :
    rows.flatten.flatMap Piece.literal = cuts.flatMap Token.Cut.literal := by
  induction h with
  | nil => rfl
  | cons hrow _ ih =>
    rw [List.flatten_cons, List.flatMap_append, hrow, ih, List.flatMap_cons]

/-- **Wrappers show the overlap of highlights.**  The pieces of a text that passes the round trip are
a row for each literal, in order, and the notes of anchors after the last one.  A row has the notes
before the literal and a piece for each segment of it, in the wrappers of exactly the highlights over
the literal if the segment is running text: those that start before the literal and end after it.  The
pieces without notes and wrappers are the literals. -/
theorem rows_of_readBack {text : Text} {placed : List Placed} (tags : TagMap)
    (settings : StyleSettings) (hread : Token.ofText text = .ok tokens)
    (hcheck : Token.checkRoundTrip tokens placed.length = .ok ()) :
    let rendering := ofPlaced tags settings placed
    ∃ rows trailing waiting,
      rendering.regions (Region.ofTokens tokens) = rows ++ trailing ∧
      List.Forall₂ (fun cut row => rendering.RowOf placed.length cut row ∧
        row.flatMap Piece.literal = cut.literal) (Token.cuts tokens) rows ∧
      (∀ cut ∈ Token.cuts tokens, ∀ i, i ∈ cut.highlights placed.length ↔
        (.start, i) ∈ Token.marks cut.before ∧ (.stop, i) ∈ Token.marks cut.after) ∧
      trailing.flatten = rendering.notes waiting ∧
      (rows ++ trailing).flatten.flatMap Piece.literal = Token.literals tokens := by
  intro rendering
  have hintact := Token.intact_of_readBack hread hcheck
  obtain ⟨rows, trailing, waiting, heq, hrows, htrailing⟩ := rendering.exists_rows [] tokens []
  -- At each cut the marks before and behind it are together the marks of the whole text.
  have hcuts : ∀ cut ∈ Token.cuts tokens,
      Token.Intact placed.length (Token.marks cut.before ++ Token.marks cut.after) := by
    intro cut hcut
    have happend := Token.append_of_mem_cutsFrom hcut
    rw [List.nil_append] at happend
    rwa [happend, Token.marks_append, Token.marks_text] at hintact
  have hshown : List.Forall₂ (fun cut row => rendering.RowOf placed.length cut row ∧
      row.flatMap Piece.literal = cut.literal) (Token.cuts tokens) rows := by
    refine ((List.forall₂_and_left _ _).mpr ⟨hcuts, hrows⟩).imp ?_
    rintro cut row ⟨hcut, anchors, rfl⟩
    have hrow : rendering.RowOf placed.length cut (rendering.notes anchors ++ cut.segments.map
        (segmentPiece (rendering.layers? (IndexSet.empty.openAfter (Token.marks cut.before))))) := by
      refine ⟨anchors, _, rfl, ?_⟩
      rw [List.forall₂_map_right_iff, List.forall₂_same, ← Token.toList_openAfter hcut]
      intro segment _
      refine shown_segmentPiece (fun i hi => ?_) segment
      rw [IndexSet.mem_def, Token.toList_openAfter hcut] at hi
      obtain ⟨style, hfind⟩ := exists_find?_ofPlaced tags settings
        (List.mem_range.mp (List.mem_filter.mp hi).1)
      exact ⟨_, hfind⟩
    exact ⟨hrow, hrow.literal⟩
  refine ⟨rows, trailing, waiting, heq, hshown,
    fun cut hcut _ => Token.Cut.mem_highlights (hcuts cut hcut),
    htrailing, ?_⟩
  rw [List.flatten_append, List.flatMap_append, htrailing, literal_notes, List.append_nil,
    literals_of_rows (hshown.imp fun _ _ h => h.2)]
  exact Token.flatMap_literal_cutsFrom [] tokens

/-- Two highlights that cross, with text that only one of them covers on both sides. -/
theorem rows_of_readBack_crossing :
    let text := ("ANNMARKER0ENDMARKERHLSTART0ENDHLaANNMARKER1ENDMARKERHLSTART1ENDHLb" ++
      "HLEND0ENDHLcHLEND1ENDHL").toList
    let tokens : List Token := [.mark .anchor 0, .text [], .mark .start 0, .text ['a'],
      .mark .anchor 1, .text [], .mark .start 1, .text ['b'], .mark .stop 0, .text ['c'],
      .mark .stop 1]
    let placed : List Placed :=
      [⟨0, 0, 2, 0, 2, ⟨"first", 0, 2, "x", "", ⟨19723, 0, 0⟩, [], none⟩⟩,
        ⟨1, 1, 3, 1, 3, ⟨"second", 1, 3, "y", "", ⟨19723, 0, 0⟩, [], none⟩⟩]
    let rendering := ofPlaced [] .standard placed
    Token.ofText text = .ok tokens ∧ Token.checkRoundTrip tokens placed.length = .ok () ∧
      (Token.cuts tokens).map (fun cut => cut.highlights 2) = [[], [0], [0], [0, 1], [1]] ∧
      ∃ rows trailing, rendering.regions (Region.ofTokens tokens) = rows ++ trailing ∧
        List.Forall₂ (fun cut row => rendering.RowOf 2 cut row ∧
          row.flatMap Piece.literal = cut.literal) (Token.cuts tokens) rows := by
  intro text tokens placed rendering
  have hread : Token.ofText text = .ok tokens := by decide +kernel
  have hcheck : Token.checkRoundTrip tokens placed.length = .ok () := by decide +kernel
  obtain ⟨rows, trailing, waiting, heq, hrows, -⟩ := rows_of_readBack [] .standard hread hcheck
  exact ⟨hread, hcheck, by decide +kernel, rows, trailing, heq, hrows⟩

end Rendering

end Marginalia
