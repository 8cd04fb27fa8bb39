import Marginalia.Proofs.Nesting.Dressing
import Marginalia.Proofs.Note
import Marginalia.Proofs.Overlap

/-! # Rendered regions

The regions of a converted text are rows of atoms, one row for each region (`Region.Rows`).  Rendering
puts notes in front of a row, and wrappers around its running text if it is highlighted: the rendered
text is spelled by the rows dressed (`dressed_regionsFrom`).
-/
namespace Marginalia

open Text Latex Relocation

variable {atoms run : List Atom} {segments : List Segment}

/-! ### Wrappers as they are written -/

/-- The names of the colours of the layers are keys. -/
def Layers.Keyed : Layers → Prop
  | one style => ∀ c ∈ style.key, isKeyChar c = true
  | two outer inner =>
    (∀ c ∈ outer.key, isKeyChar c = true) ∧ ∀ c ∈ inner.key, isKeyChar c = true
  | many => True

namespace Layers

/-- The option of a wrapper that draws a line. -/
def lineOption (color height bottom : Text) : Text :=
  "color=".toList ++ color ++ ", height=".toList ++ height ++ "pt, bottom=".toList ++ bottom ++
    "pt".toList

theorem highLight_eq (color text : Text) : highLight color text =
    '\\' :: ("highLight".toList ++ '[' :: (color ++ ']' :: '\x7b' :: (text ++ ['\x7d']))) := by
  have hopen : "\\highLight[".toList = '\\' :: ("highLight".toList ++ ['[']) := rfl
  have hclose : "]\x7b".toList = [']', '\x7b'] := rfl
  unfold highLight
  rw [hopen, hclose]
  simp only [List.append_assoc, List.cons_append, List.nil_append]

theorem underLine_eq (color height bottom text : Text) : underLine color height bottom text =
    '\\' :: ("underLine".toList ++ '[' ::
      (lineOption color height bottom ++ ']' :: '\x7b' :: (text ++ ['\x7d']))) := by
  have hopen : "\\underLine[color=".toList =
      '\\' :: ("underLine".toList ++ '[' :: "color=".toList) := rfl
  have hclose : "pt]\x7b".toList = "pt".toList ++ [']', '\x7b'] := rfl
  unfold underLine lineOption
  rw [hopen, hclose]
  simp only [List.append_assoc, List.cons_append, List.nil_append]

theorem spell_highLight (color : Text) (inner : List Atom) :
    spell (layer "highLight" color inner) = highLight color (spell inner) := by
  rw [spell_layer, highLight_eq]

theorem spell_underLine (color height bottom : Text) (inner : List Atom) :
    spell (layer "underLine" (lineOption color height bottom) inner) =
      underLine color height bottom (spell inner) := by
  rw [spell_layer, underLine_eq]

theorem ordinary_append {text text' : Text} (h : ∀ c ∈ text, Ordinary c)
    (h' : ∀ c ∈ text', Ordinary c) : ∀ c ∈ text ++ text', Ordinary c :=
  List.forall_mem_append.mpr ⟨h, h'⟩

theorem ordinary_word {text : Text} (h : text.all fun c => c.isAlphanum || "-=, ".toList.contains c) :
    ∀ c ∈ text, Ordinary c := by
  intro c hc
  have hword := List.all_eq_true.mp h c hc
  refine ⟨⟨⟨?_, ?_, ?_, ?_⟩, ?_, ?_⟩, ?_, ?_⟩ <;>
    (rintro rfl; exact absurd hword (by decide))

theorem ordinary_light {style : TagStyle} (h : ∀ c ∈ style.key, isKeyChar c = true) :
    ∀ c ∈ style.light, Ordinary c :=
  ordinary_append (fun c hc => ordinary_of_isKeyChar (h c hc)) (ordinary_word (by decide))

theorem ordinary_dark {style : TagStyle} (h : ∀ c ∈ style.key, isKeyChar c = true) :
    ∀ c ∈ style.dark, Ordinary c :=
  ordinary_append (fun c hc => ordinary_of_isKeyChar (h c hc)) (ordinary_word (by decide))

theorem ordinary_lineOption {color height bottom : Text} (hcolor : ∀ c ∈ color, Ordinary c)
    (hheight : ∀ c ∈ height, Ordinary c) (hbottom : ∀ c ∈ bottom, Ordinary c) :
    ∀ c ∈ lineOption color height bottom, Ordinary c :=
  ordinary_append (ordinary_append (ordinary_append (ordinary_append (ordinary_append
    (ordinary_append (ordinary_word (by decide)) hcolor) (ordinary_word (by decide))) hheight)
    (ordinary_word (by decide))) hbottom) (ordinary_word (by decide))

/-- Text in its wrappers is spelled by the atoms of the text in wrappers. -/
theorem exists_wrapped {layers : Layers} (h : layers.Keyed) (run : List Atom) :
    ∃ inner, Wrapped run inner ∧ spell inner = layers.wrap (spell run) := by
  have hhighLight : IsWrapper "highLight" := .inl rfl
  have hunderLine : IsWrapper "underLine" := .inr rfl
  have hdigit : ∀ digit ∈ ["1", "2", "4", "-3", "-5"], ∀ c ∈ digit.toList, Ordinary c := by
    intro digit hdigit
    refine ordinary_word ?_
    revert digit
    decide
  cases layers with
  | one style =>
    refine ⟨_, .layer hhighLight (ordinary_light h) (.single hunderLine
      (ordinary_lineOption (ordinary_dark h) (hdigit "1" (by decide)) (hdigit "-3" (by decide)))), ?_⟩
    rw [spell_highLight, spell_underLine]
    rfl
  | two outer inner =>
    obtain ⟨houter, hinner⟩ := h
    refine ⟨_, .layer hhighLight (ordinary_light houter) (.layer hhighLight (ordinary_light hinner)
      (.layer hunderLine
        (ordinary_lineOption (ordinary_dark houter) (hdigit "2" (by decide)) (hdigit "-3" (by decide)))
        (.single hunderLine (ordinary_lineOption (ordinary_dark hinner) (hdigit "1" (by decide))
          (hdigit "-5" (by decide)))))), ?_⟩
    rw [spell_highLight, spell_highLight, spell_underLine, spell_underLine]
    rfl
  | many =>
    have hlight : ∀ c ∈ "many-light".toList, Ordinary c := ordinary_word (by decide)
    have hdark : ∀ c ∈ "many-dark".toList, Ordinary c := ordinary_word (by decide)
    refine ⟨_, .layer hhighLight hlight (.single hunderLine
      (ordinary_lineOption hdark (hdigit "4" (by decide)) (hdigit "-5" (by decide)))), ?_⟩
    rw [spell_highLight, spell_underLine]
    rfl

end Layers

/-! ### Segments -/

namespace Rendering

theorem textOf_append (pieces pieces' : List Piece) :
    textOf (pieces ++ pieces') = textOf pieces ++ textOf pieces' :=
  List.flatMap_append

theorem textOf_cons (piece : Piece) (pieces : List Piece) :
    textOf (piece :: pieces) = piece.toText ++ textOf pieces := rfl

/-- The segments of a highlighted region: running text gets wrappers. -/
theorem dressed_segments {layers : Layers} (hlayers : layers.Keyed) (h : Carved segments atoms)
    (hne : ∀ segment ∈ segments, segment.text ≠ []) (hlit : ∀ atom ∈ atoms, atom.IsLit) :
    ∃ dressed, Dressed atoms dressed ∧
      spell dressed = textOf (segments.map (segmentPiece (some layers))) := by
  induction h with
  | nil => exact ⟨[], .nil, rfl⟩
  | @cons segment segments run atoms htext hrun _ ih =>
    obtain ⟨hsegment, hsegments⟩ := List.forall_mem_cons.mp hne
    obtain ⟨hrunLit, hatomsLit⟩ := List.forall_mem_append.mp hlit
    obtain ⟨dressed, hdressed, hspell⟩ := ih hsegments hatomsLit
    have hrunNe : run ≠ [] := by
      rintro rfl
      exact hsegment htext.symm
    obtain ⟨inner, hwrapped, hinner⟩ := Layers.exists_wrapped hlayers run
    rw [htext] at hinner
    rw [List.map_cons, textOf_cons, ← hspell]
    obtain ⟨kind, text⟩ := segment
    cases kind with
    | markup =>
      refine ⟨run ++ dressed, (Dressed.refl run).append hdressed, ?_⟩
      rw [spell_append, htext]
      rfl
    | plain =>
      refine ⟨inner ++ dressed, .wrapped (hrun (by simp)) hrunLit hrunNe hwrapped hdressed, ?_⟩
      rw [spell_append, hinner]
      rfl
    | shielded =>
      refine ⟨shield inner ++ dressed,
        .wrapped (hrun (by simp)) hrunLit hrunNe hwrapped.shield hdressed, ?_⟩
      rw [spell_append, spell_shield, hinner]
      rfl

/-- The segments of a region that is not highlighted stay as they are. -/
theorem textOf_segments (segments : List Segment) :
    textOf (segments.map (segmentPiece none)) = Segment.texts segments := by
  induction segments with
  | nil => rfl
  | cons segment segments ih =>
    obtain ⟨kind, text⟩ := segment
    rw [List.map_cons, textOf_cons, ih]
    cases kind <;> rfl

/-! ### Regions -/

/-- The keys of all styles in use are keys. -/
def Keyed (rendering : Rendering) : Prop :=
  ∀ index highlight style, rendering.find? index = some (highlight, style) →
    ∀ c ∈ style.key, isKeyChar c = true

/-- The keys of the colours of highlights in place are keys. -/
theorem keyed_ofPlaced (tags : TagMap) (settings : StyleSettings) (placed : List Placed) :
    Keyed (ofPlaced tags settings placed) := by
  intro index highlight style hfind
  obtain ⟨first, -, hfirst⟩ := Option.bind_eq_some_iff.mp hfind
  obtain ⟨found, hstyle, hfound⟩ := Option.bind_eq_some_iff.mp hfirst
  obtain ⟨-, rfl⟩ := Prod.mk.inj (Option.some.inj hfound)
  exact StyleTable.isKeyChar_of_find? hstyle

variable {rendering : Rendering} {state : Segmenter} {region : Region}

theorem Keyed.of_mem_filterMap (h : rendering.Keyed) (active : List Nat) {style : TagStyle}
    (hstyle : style ∈ active.filterMap fun index => (rendering.find? index).map Prod.snd) :
    ∀ c ∈ style.key, isKeyChar c = true := by
  obtain ⟨index, -, hindex⟩ := List.mem_filterMap.mp hstyle
  obtain ⟨⟨highlight, found⟩, hfind, heq⟩ := Option.map_eq_some_iff.mp hindex
  obtain rfl : found = style := heq
  exact h index highlight found hfind

theorem Keyed.layers (h : rendering.Keyed) {active : IndexSet} {layers : Layers}
    (hlayers : rendering.layers? active = some layers) :
    layers.Keyed ∧ active.toList ≠ [] := by
  unfold layers? at hlayers
  split at hlayers
  · next hmany =>
    obtain rfl := Option.some.inj hlayers
    refine ⟨trivial, ?_⟩
    intro hnil
    rw [IndexSet.size, hnil, List.length_nil] at hmany
    omega
  · have hne {styles : List TagStyle} (hstyles : styles ≠ [])
        (heq : (active.toList.filterMap fun index => (rendering.find? index).map Prod.snd) = styles) :
        active.toList ≠ [] := by
      intro hnil
      rw [hnil] at heq
      exact hstyles heq.symm
    split at hlayers
    · cases hlayers
    · next only hstyles =>
      obtain rfl := Option.some.inj hlayers
      refine ⟨h.of_mem_filterMap active.toList ?_, hne (List.cons_ne_nil _ _) hstyles⟩
      rw [hstyles]
      exact List.mem_cons_self
    · next outer inner rest hstyles =>
      obtain rfl := Option.some.inj hlayers
      refine ⟨⟨h.of_mem_filterMap active.toList ?_, h.of_mem_filterMap active.toList ?_⟩,
        hne (List.cons_ne_nil _ _) hstyles⟩
      · rw [hstyles]
        exact List.mem_cons_self
      · rw [hstyles]
        exact List.mem_cons_of_mem _ List.mem_cons_self

theorem Keyed.of_mem_notes (h : rendering.Keyed) {anchors : List Nat} {piece : Piece}
    (hpiece : piece ∈ rendering.notes anchors) :
    ∃ highlight style, (∀ c ∈ style.key, isKeyChar c = true) ∧
      piece.toText = Note.toText highlight style := by
  obtain ⟨index, -, hindex⟩ := List.mem_filterMap.mp hpiece
  obtain ⟨⟨highlight, style⟩, hfind, rfl⟩ := Option.map_eq_some_iff.mp hindex
  exact ⟨highlight, style, h index highlight style hfind, rfl⟩

/-- The notes of anchors are notes. -/
theorem exists_notes (h : rendering.Keyed) (anchors : List Nat) :
    ∃ notes : List Text, (∀ note ∈ notes, IsNote note) ∧
      spell (notes.map Atom.note) = textOf (rendering.notes anchors) := by
  refine ⟨(rendering.notes anchors).map Piece.toText, fun note hnote => ?_, ?_⟩
  · obtain ⟨piece, hpiece, rfl⟩ := List.mem_map.mp hnote
    obtain ⟨highlight, style, hkey, heq⟩ := h.of_mem_notes hpiece
    rw [heq]
    exact Note.isNote_toText hkey highlight
  · rw [List.map_map, spell, List.flatMap_map]
    rfl

end Rendering

/-- The atoms of a region: they spell its text, and if it is highlighted they say so, and no white
space that breaks a line begins inside one of them. -/
structure Region.Row (region : Region) (atoms : List Atom) : Prop where
  text : spell atoms = region.text
  lit : region.active.toList ≠ [] → ∀ atom ∈ atoms, atom.IsLit
  firm : region.active.toList ≠ [] → Firm atoms

/-- The rows of atoms of regions.  The state of the segmenter runs through them, and all parts of a
highlighted region end between two of its atoms. -/
inductive Region.Rows : Segmenter → List Region → List (List Atom) → Prop
  | nil {state : Segmenter} : Rows state [] []
  | cons {state : Segmenter} {region : Region} {regions : List Region} {atoms : List Atom}
      {rows : List (List Atom)} (hrow : region.Row atoms)
      (hpasses : region.active.toList ≠ [] → state.Passes atoms)
      (h : Rows (state.split region.text).2 regions rows) :
      Rows state (region :: regions) (atoms :: rows)

/-- Where there are neither notes nor verbatim text, all parts end between two atoms. -/
theorem Region.rows_of_scanned {state : Segmenter} (hreadable : state.IsReadable)
    {regions : List Region} {rows : List (List Atom)}
    (hrows : List.Forall₂ Region.Row regions rows) (hscanned : Scanned rows.flatten) :
    Rows state regions rows := by
  induction hrows generalizing state with
  | nil => exact .nil
  | @cons region atoms regions rows hrow _ ih =>
    rw [List.flatten_cons] at hscanned
    obtain ⟨hpasses, hlast⟩ := hscanned.left.passes hreadable
    rw [hrow.text] at hlast
    exact .cons hrow (fun _ => hpasses) (ih hlast (hscanned.of_suffix (List.suffix_append _ _)))

namespace Rendering

variable {rendering : Rendering} {state : Segmenter} {region : Region}

/-- **A rendered region is its row of atoms, dressed.** -/
theorem dressed_region (hkeyed : rendering.Keyed) (hrow : region.Row atoms)
    (hpasses : region.active.toList ≠ [] → state.Passes atoms) (hspelled : WellSpelled atoms) :
    ∃ dressed, Dressed atoms dressed ∧
      spell dressed = textOf (rendering.region state region).1 := by
  obtain ⟨notes, hnotes, hspell⟩ := exists_notes hkeyed region.anchors
  have hsegments : ∃ dressed, Dressed atoms dressed ∧ spell dressed =
      textOf ((state.split region.text).1.map (segmentPiece (rendering.layers? region.active))) := by
    cases hlayers : rendering.layers? region.active with
    | none =>
      refine ⟨atoms, .refl atoms, ?_⟩
      rw [textOf_segments, Segmenter.split_append, hrow.text]
    | some layers =>
      obtain ⟨hlayersKeyed, hactive⟩ := hkeyed.layers hlayers
      have hlit := hrow.lit hactive
      have hcarved := (hpasses hactive).carved_split hlit hspelled (hrow.firm hactive)
      rw [hrow.text] at hcarved
      exact dressed_segments hlayersKeyed hcarved
        (fun segment => Segment.text_ne_nil_of_mem_merge) hlit
  obtain ⟨dressed, hdressed, hdressedText⟩ := hsegments
  refine ⟨notes.map Atom.note ++ dressed, (Dressed.notes hnotes).append hdressed, ?_⟩
  rw [spell_append, hspell, hdressedText, ← textOf_append, region_eq]

/-- The rendered regions of a text are their rows of atoms, dressed. -/
theorem dressed_regionsFrom (hkeyed : rendering.Keyed) {regions : List Region}
    {rows : List (List Atom)} (hrows : Region.Rows state regions rows)
    (hspelled : WellSpelled rows.flatten) :
    ∃ dressed, Dressed rows.flatten dressed ∧
      spell dressed = textOf (rendering.regionsFrom state regions).flatten := by
  induction hrows with
  | nil => exact ⟨[], .nil, rfl⟩
  | @cons state region regions atoms rows hrow hpasses _ ih =>
    rw [List.flatten_cons] at hspelled ⊢
    obtain ⟨front, hfront, hfrontText⟩ := dressed_region hkeyed hrow hpasses hspelled.left
    obtain ⟨back, hback, hbackText⟩ := ih hspelled.right
    refine ⟨front ++ back, hfront.append hback, ?_⟩
    rw [spell_append, hfrontText, hbackText, ← textOf_append]
    rfl

end Rendering

end Marginalia
