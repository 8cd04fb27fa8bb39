import Marginalia.Proofs.Overlap
import Marginalia.Proofs.Style
import Mathlib.Data.List.Dedup
import Mathlib.Data.String.Basic

/-! # The colours of a document

A document names colours in three places: in its definitions, in the wrappers around highlighted text
and in its margin notes, whose first argument is the key of the dark colour.  The names that are defined
are read off the text of the definitions (`definedNames`).  What is used is read off the rendered pieces
(`Piece.Colored`).

The two come from different code and agree because both go back to the slug of the tag.  Slugs of
different tags are different, so no colour is defined twice (`nodup_definedNames`), and a tag that is
used has a style, so no colour is missing (`palette`).
-/
namespace Marginalia

open Text

/-! ### The colours that are defined -/

namespace Text

theorem splitOn_append_cons {separator : Char} {line : Text} (h : separator ∉ line) (rest : Text) :
    splitOn separator (line ++ separator :: rest) = line :: splitOn separator rest := by
  induction line with
  | nil => simp [splitOn]
  | cons c line ih =>
    rw [List.mem_cons, not_or] at h
    rw [List.cons_append, splitOn, if_neg (Ne.symm h.1), ih h.2]

end Text

namespace StyleTable

/-- The fronts of the lines that define a colour. -/
def definers : List Text :=
  ["\\definecolor\x7b".toList, "\\colorlet\x7b".toList]

/-- The colour that a line defines: the first argument of its command. -/
def definedName? (line : Text) : Option Text :=
  (definers.findSome? fun command => command.isPrefixOf? line).map fun rest =>
    rest.takeWhile (· ≠ '\x7d')

/-- The colours that a text defines, line by line. -/
def definedNames (text : Text) : List Text :=
  (splitOn '\n' text).filterMap definedName?

theorem ne_of_isKeyChar {c : Char} (h : isKeyChar c = true) : c ≠ '\x7d' ∧ c ≠ '\n' := by
  constructor <;> (rintro rfl; exact absurd h (by decide))

theorem definedNames_line {command name value : Text} (hcommand : command ∈ definers)
    (hname : ∀ c ∈ name, isKeyChar c = true) (hvalue : '\n' ∉ value) (rest : Text) :
    definedNames (command ++ name ++ '\x7d' :: value ++ '\n' :: rest) =
      name :: definedNames rest := by
  have hline : '\n' ∉ command ++ name ++ '\x7d' :: value := by
    intro h
    rcases List.mem_append.mp h with h | h
    · rcases List.mem_append.mp h with h | h
      · exact (by decide : ∀ command ∈ definers, '\n' ∉ command) command hcommand h
      · exact (ne_of_isKeyChar (hname _ h)).2 rfl
    · rcases List.mem_cons.mp h with h | h
      · exact absurd h (by decide)
      · exact hvalue h
  have hread : definedName? (command ++ name ++ '\x7d' :: value) = some name := by
    have hfound : (definers.findSome? fun word =>
        word.isPrefixOf? (command ++ name ++ '\x7d' :: value)) = some (name ++ '\x7d' :: value) := by
      rw [List.append_assoc]
      rcases List.mem_pair.mp hcommand with rfl | rfl
      · rw [definers, List.findSome?_cons, isPrefixOf?_append]
      · rfl
    rw [definedName?, hfound, Option.map_some]
    refine congrArg some (takeWhile_append_stop (fun c hc => ?_) (by simp)).1
    exact decide_eq_true (ne_of_isKeyChar (hname c hc)).1
  rw [definedNames, splitOn_append_cons hline, List.filterMap_cons, hread]
  rfl

theorem newline_not_mem_toText (color : Color) : '\n' ∉ color.toText := by
  have hdigit : ∀ n : Fin 16, Color.hexDigit n ≠ '\n' := by decide
  have hchannel (channel : UInt8) : '\n' ∉ Color.channelText channel := by
    have hlt := channel.toNat_lt
    intro h
    rcases List.mem_pair.mp h with h | h
    · exact hdigit ⟨channel.toNat / 16, by omega⟩ h.symm
    · exact hdigit ⟨channel.toNat % 16, by omega⟩ h.symm
  simp [Color.toText, hchannel]

theorem definedNames_define {dark light : Text} (hdark : ∀ c ∈ dark, isKeyChar c = true)
    (hlight : ∀ c ∈ light, isKeyChar c = true) (color : Color) (tint : Nat) (rest : Text) :
    definedNames (define dark light color tint ++ rest) = dark :: light :: definedNames rest := by
  have hvalue : '\n' ∉ "\x7bHTML\x7d\x7b".toList ++ color.toText ++ ['\x7d'] := by
    simp [newline_not_mem_toText]
  have hmix : '\n' ∉ '\x7b' :: dark ++ '!' :: decimal tint ++ ['\x7d'] := by
    intro h
    rcases List.mem_append.mp h with h | h
    · rcases List.mem_append.mp h with h | h
      · rcases List.mem_cons.mp h with h | h
        · exact absurd h (by decide)
        · exact (ne_of_isKeyChar (hdark _ h)).2 rfl
      · rcases List.mem_cons.mp h with h | h
        · exact absurd h (by decide)
        · exact absurd (Sentinel.isDigit_of_mem_decimal h) (by decide)
    · exact absurd h (by decide)
  have hlines : define dark light color tint ++ rest =
      "\\definecolor\x7b".toList ++ dark ++
        '\x7d' :: ("\x7bHTML\x7d\x7b".toList ++ color.toText ++ ['\x7d']) ++
        '\n' :: ("\\colorlet\x7b".toList ++ light ++
          '\x7d' :: ('\x7b' :: dark ++ '!' :: decimal tint ++ ['\x7d']) ++ '\n' :: rest) := by
    have hhtml : "\x7d\x7bHTML\x7d\x7b".toList = '\x7d' :: "\x7bHTML\x7d\x7b".toList := rfl
    have hnext : "\x7d\n\\colorlet\x7b".toList = '\x7d' :: '\n' :: "\\colorlet\x7b".toList := rfl
    have hmiddle : "\x7d\x7b".toList = ['\x7d', '\x7b'] := rfl
    have hclose : "\x7d\n".toList = ['\x7d', '\n'] := rfl
    unfold define
    rw [hhtml, hnext, hmiddle, hclose]
    simp only [List.append_assoc, List.cons_append, List.nil_append]
  rw [hlines, definedNames_line (by decide) hdark hvalue, definedNames_line (by decide) hlight hmix]

end StyleTable

namespace TagStyle

variable {style style' : TagStyle}

theorem isKeyChar_dark (h : ∀ c ∈ style.key, isKeyChar c = true) :
    ∀ c ∈ style.dark, isKeyChar c = true :=
  List.forall_mem_append.mpr ⟨h, by decide⟩

theorem isKeyChar_light (h : ∀ c ∈ style.key, isKeyChar c = true) :
    ∀ c ∈ style.light, isKeyChar c = true :=
  List.forall_mem_append.mpr ⟨h, by decide⟩

/-- The two colours of a style. -/
def names (style : TagStyle) : List Text :=
  [style.dark, style.light]

/-- A colour of a style tells its slug, and whether it is the dark one. -/
theorem dark_ne_light : style.dark ≠ style'.light := by
  intro h
  have hlast := congrArg List.getLast? h
  simp [dark, light] at hlast

theorem slug_eq_of_mem_names {name : Text} (h : name ∈ style.names) (h' : name ∈ style'.names) :
    style.slug = style'.slug := by
  rcases List.mem_pair.mp h with rfl | rfl <;> rcases List.mem_pair.mp h' with heq | heq
  · exact List.append_cancel_left (List.append_cancel_right heq)
  · exact absurd heq dark_ne_light
  · exact absurd heq.symm dark_ne_light
  · exact List.append_cancel_left (List.append_cancel_right heq)

theorem head?_of_mem_names {name : Text} (h : name ∈ style.names) : name.head? = some 't' := by
  rcases List.mem_pair.mp h with rfl | rfl <;> rfl

end TagStyle

namespace StyleTable

variable {tags : TagMap} {settings : StyleSettings} {used : List String}

/-- The colours that three or more highlights share. -/
def sharedNames : List Text :=
  ["many-dark".toList, "many-light".toList]

/-- A table defines the colours of its styles and those that highlights share. -/
theorem definedNames_definitions {table : StyleTable}
    (h : ∀ entry ∈ table.styles, ∀ c ∈ entry.2.key, isKeyChar c = true) :
    definedNames table.definitions =
      table.styles.flatMap (fun entry => entry.2.names) ++ sharedNames := by
  obtain ⟨styles, manyColor, tint⟩ := table
  have hshared : definedNames
      (define "many-dark".toList "many-light".toList manyColor tint) = sharedNames := by
    have hnames := @definedNames_define "many-dark".toList "many-light".toList (by decide) (by decide)
      manyColor tint []
    rw [List.append_nil] at hnames
    exact hnames
  unfold definitions
  dsimp only at h ⊢
  induction styles with
  | nil => exact hshared
  | cons entry styles ih =>
    obtain ⟨hkey, h⟩ := List.forall_mem_cons.mp h
    rw [List.flatMap_cons, List.append_assoc,
      definedNames_define (TagStyle.isKeyChar_dark hkey) (TagStyle.isKeyChar_light hkey), ih h]
    rfl

theorem definedNames_ofTags (tags : TagMap) (settings : StyleSettings) (used : List String) :
    definedNames (ofTags tags settings used).definitions =
      (ofTags tags settings used).styles.flatMap (fun entry => entry.2.names) ++ sharedNames :=
  definedNames_definitions fun _ hentry => isKeyChar_of_mem hentry

/-- The definitions of a table define no colour twice. -/
theorem nodup_definedNames (tags : TagMap) (settings : StyleSettings) (used : List String) :
    (definedNames (ofTags tags settings used).definitions).Nodup := by
  rw [definedNames_ofTags]
  refine List.nodup_append'.mpr ⟨List.nodup_flatMap.mpr ⟨?_, ?_⟩, by decide, ?_⟩
  · intro entry _
    exact List.nodup_cons.mpr ⟨by simpa using TagStyle.dark_ne_light, List.nodup_singleton _⟩
  · have hslugs := nodup_slugs tags settings used
    refine (List.pairwise_map.mp hslugs).imp fun hne name hmem hmem' => ?_
    exact hne (TagStyle.slug_eq_of_mem_names hmem hmem')
  · intro name hmem hshared
    obtain ⟨entry, -, hname⟩ := List.mem_flatMap.mp hmem
    have hhead := TagStyle.head?_of_mem_names hname
    rcases List.mem_pair.mp hshared with rfl | rfl <;> exact absurd hhead (by decide)

/-- Styles of a table with the same slug are those of one tag. -/
theorem eq_of_slug_eq {tag tag' : String} {style style' : TagStyle}
    (h : (ofTags tags settings used).find? tag = some style)
    (h' : (ofTags tags settings used).find? tag' = some style') (hslug : style.slug = style'.slug) :
    tag = tag' :=
  (Prod.mk.inj (List.inj_on_of_nodup_map (nodup_slugs tags settings used) (mem_of_find? h)
    (mem_of_find? h') hslug)).1

example : (ofTags [] .standard ["a b", "a-b", "a-b-2"]).styles.map (fun entry => entry.2.slug) =
    ["a-b".toList, "a-b-2".toList, "a-b-2-2".toList] := by
  decide +kernel

theorem pairwise_insertTag {tag : String} {sorted : List String}
    (h : sorted.Pairwise (· < ·)) : (insertTag tag sorted).Pairwise (· < ·) := by
  induction sorted with
  | nil => exact List.pairwise_singleton _ _
  | cons first rest ih =>
    obtain ⟨hfirst, hrest⟩ := List.pairwise_cons.mp h
    rw [insertTag]
    split
    · next hlt =>
      refine List.pairwise_cons.mpr ⟨?_, h⟩
      intro t ht
      rcases List.mem_cons.mp ht with rfl | ht
      · exact hlt
      · exact hlt.trans (hfirst t ht)
    · next hnot =>
      split
      · exact h
      · next hne =>
        refine List.pairwise_cons.mpr ⟨?_, ih hrest⟩
        intro t ht
        rcases mem_insertTag.mp ht with rfl | ht
        · exact lt_of_le_of_ne (not_lt.mp hnot) (Ne.symm hne)
        · exact hfirst t ht

theorem pairwise_sortTags (tags : List String) : (sortTags tags).Pairwise (· < ·) := by
  have hfold (sorted : List String) (h : sorted.Pairwise (· < ·)) :
      (tags.foldl (fun sorted tag => insertTag tag sorted) sorted).Pairwise (· < ·) := by
    induction tags generalizing sorted with
    | nil => exact h
    | cons tag tags ih => exact ih _ (pairwise_insertTag h)
  exact hfold [] .nil

/-- A table has one style for each tag in use. -/
theorem length_sortTags (tags : List String) : (sortTags tags).length = tags.dedup.length := by
  have hnodup : (sortTags tags).Nodup := (pairwise_sortTags tags).imp ne_of_lt
  refine ((List.perm_ext_iff_of_nodup hnodup tags.nodup_dedup).mpr fun tag => ?_).length_eq
  rw [mem_sortTags, List.mem_dedup]

end StyleTable

/-! ### The colours that are used -/

namespace Rendering

/-- A text in wrappers, with the colours that these name from the outside in. -/
inductive Wears (inner : Text) : List Text → Text → Prop
  | bare : Wears inner [] inner
  | highLight {colors : List Text} {text : Text} (color : Text) (h : Wears inner colors text) :
      Wears inner (color :: colors) (Layers.highLight color text)
  | underLine {colors : List Text} {text : Text} (color height bottom : Text)
      (h : Wears inner colors text) :
      Wears inner (color :: colors) (Layers.underLine color height bottom text)
  | group {colors : List Text} {text : Text} (h : Wears inner colors text) :
      Wears inner colors ('\x7b' :: (text ++ ['\x7d']))

/-- A piece that names only the given colours: those of its wrappers, or the dark colour of the key of
a note. -/
inductive Piece.Colored (names : List Text) : Piece → Prop
  | verbatim (text : Text) : Piece.Colored names (.verbatim text)
  | wrapped {layers : Layers} {isShielded : Bool} {text : Text} {colors : List Text}
      (hwears : Wears text colors (Piece.wrapped layers isShielded text).toText)
      (hnames : ∀ color ∈ colors, color ∈ names) :
      Piece.Colored names (.wrapped layers isShielded text)
  | note (index : Nat) {key : Text} (body : Text) (hkey : ∀ c ∈ key, isKeyChar c = true)
      (hnames : key ++ "-dark".toList ∈ names) :
      Piece.Colored names
        (.note index ("\\annot\x7b".toList ++ key ++ "\x7d\x7b".toList ++ body ++ ['\x7d']))

end Rendering

namespace Layers

/-- The colours that the wrappers name, from the outside in. -/
def colors : Layers → List Text
  | one style => [style.light, style.dark]
  | two outer inner => [outer.light, inner.light, outer.dark, inner.dark]
  | many => ["many-light".toList, "many-dark".toList]

theorem wears_wrap (layers : Layers) (text : Text) :
    Rendering.Wears text layers.colors (layers.wrap text) := by
  cases layers with
  | one style => exact .highLight _ (.underLine _ _ _ .bare)
  | two outer inner =>
    exact .highLight _ (.highLight _ (.underLine _ _ _ (.underLine _ _ _ .bare)))
  | many => exact .highLight _ (.underLine _ _ _ .bare)

end Layers

namespace Rendering

variable {tags : TagMap} {settings : StyleSettings} {placed : List Placed}

/-- The colours that the document of a rendering defines. -/
def colorNames (rendering : Rendering) : List Text :=
  StyleTable.definedNames rendering.styles.definitions

theorem mem_of_find?_ofPlaced {index : Nat} {highlight : Highlight} {style : TagStyle}
    (h : (ofPlaced tags settings placed).find? index = some (highlight, style)) :
    (highlight.tag, style) ∈ (ofPlaced tags settings placed).styles.styles := by
  obtain ⟨entry, -, h⟩ := Option.bind_eq_some_iff.mp h
  obtain ⟨found, hfound, heq⟩ := Option.bind_eq_some_iff.mp h
  obtain ⟨rfl, rfl⟩ := Prod.mk.inj (Option.some.inj heq)
  exact StyleTable.mem_of_find? hfound

/-- The colours of a style of the rendering are defined. -/
theorem mem_colorNames_of_find? {index : Nat} {highlight : Highlight} {style : TagStyle}
    (h : (ofPlaced tags settings placed).find? index = some (highlight, style)) :
    ∀ name ∈ style.names, name ∈ (ofPlaced tags settings placed).colorNames := by
  intro name hname
  rw [colorNames, ofPlaced, StyleTable.definedNames_ofTags]
  exact List.mem_append_left _ (List.mem_flatMap.mpr ⟨_, mem_of_find?_ofPlaced h, hname⟩)

theorem mem_colorNames_of_shared {name : Text} (h : name ∈ StyleTable.sharedNames) :
    name ∈ (ofPlaced tags settings placed).colorNames := by
  rw [colorNames, ofPlaced, StyleTable.definedNames_ofTags]
  exact List.mem_append_right _ h

/-- Wrappers name the colours of styles that the rendering has, or those that highlights share. -/
theorem mem_colorNames_of_layers? {active : IndexSet} {layers : Layers}
    (h : (ofPlaced tags settings placed).layers? active = some layers) :
    ∀ color ∈ layers.colors, color ∈ (ofPlaced tags settings placed).colorNames := by
  have hstyle {style : TagStyle} (hmem : style ∈ active.toList.filterMap fun index =>
      ((ofPlaced tags settings placed).find? index).map Prod.snd) :
      ∀ name ∈ style.names, name ∈ (ofPlaced tags settings placed).colorNames := by
    obtain ⟨index, -, hindex⟩ := List.mem_filterMap.mp hmem
    obtain ⟨⟨highlight, found⟩, hfind, rfl⟩ := Option.map_eq_some_iff.mp hindex
    exact mem_colorNames_of_find? hfind
  unfold layers? at h
  split at h
  · obtain rfl := Option.some.inj h
    intro color hcolor
    refine mem_colorNames_of_shared ?_
    rcases List.mem_pair.mp hcolor with rfl | rfl <;> decide
  · split at h
    · cases h
    · next only heq =>
      obtain rfl := Option.some.inj h
      have honly := hstyle (heq ▸ List.mem_singleton_self only)
      intro color hcolor
      rcases List.mem_pair.mp hcolor with rfl | rfl
      · exact honly _ (by simp [TagStyle.names])
      · exact honly _ (by simp [TagStyle.names])
    · next outer inner rest heq =>
      obtain rfl := Option.some.inj h
      have houter := hstyle (heq ▸ List.mem_cons_self (a := outer))
      have hinner := hstyle (heq ▸ List.mem_cons_of_mem outer (List.mem_cons_self (a := inner)))
      intro color hcolor
      simp only [Layers.colors, List.mem_cons, List.not_mem_nil, or_false] at hcolor
      rcases hcolor with rfl | rfl | rfl | rfl
      · exact houter _ (by simp [TagStyle.names])
      · exact hinner _ (by simp [TagStyle.names])
      · exact houter _ (by simp [TagStyle.names])
      · exact hinner _ (by simp [TagStyle.names])

theorem colored_segmentPiece {active : IndexSet} (segment : Segment) :
    (segmentPiece ((ofPlaced tags settings placed).layers? active) segment).Colored
      (ofPlaced tags settings placed).colorNames := by
  obtain ⟨kind, text⟩ := segment
  cases hlayers : (ofPlaced tags settings placed).layers? active with
  | none => cases kind <;> exact .verbatim text
  | some layers =>
    have hnames := mem_colorNames_of_layers? hlayers
    cases kind with
    | markup => exact .verbatim text
    | plain => exact .wrapped (layers.wears_wrap text) hnames
    | shielded => exact .wrapped (.group (layers.wears_wrap text)) hnames

theorem colored_notes {anchors : List Nat} {piece : Piece}
    (h : piece ∈ (ofPlaced tags settings placed).notes anchors) :
    piece.Colored (ofPlaced tags settings placed).colorNames := by
  obtain ⟨index, -, hindex⟩ := List.mem_filterMap.mp h
  obtain ⟨⟨highlight, style⟩, hfind, rfl⟩ := Option.map_eq_some_iff.mp hindex
  refine .note index _ (StyleTable.isKeyChar_of_mem (mem_of_find?_ofPlaced hfind)) ?_
  exact mem_colorNames_of_find? hfind style.dark (by simp [TagStyle.names])

/-- What one region is rendered as names defined colours only, and so does what the regions after it
are rendered as. -/
theorem colored_regionsFrom (state : Segmenter) (regions : List Region) :
    ∀ pieces ∈ (ofPlaced tags settings placed).regionsFrom state regions, ∀ piece ∈ pieces,
      piece.Colored (ofPlaced tags settings placed).colorNames := by
  induction regions generalizing state with
  | nil => simp [regionsFrom]
  | cons next regions ih =>
    rw [regionsFrom_cons]
    refine List.forall_mem_cons.mpr ⟨?_, ih _⟩
    intro piece hpiece
    rw [region_eq] at hpiece
    rcases List.mem_append.mp hpiece with hpiece | hpiece
    · exact colored_notes hpiece
    · obtain ⟨segment, -, rfl⟩ := List.mem_map.mp hpiece
      exact colored_segmentPiece segment

/-- **Every colour is defined, and only once.**  Each tag in use has a style of its own, whose slug is
made of lower-case letters, digits and hyphens; no two tags share a slug, and a number in one is at most
the number of tags, so that the count stays in 32 bits for fewer than 2^31 of them.  The definitions
name each colour once.  Whatever regions are rendered from whatever state, every colour in a wrapper and
the dark colour of every note is among those defined. -/
theorem palette (tags : TagMap) (settings : StyleSettings) (placed : List Placed) :
    let rendering := ofPlaced tags settings placed
    let used := placed.map fun p => p.highlight.tag
    (∀ tag ∈ used, ∃ style, rendering.styles.find? tag = some style ∧ style.slug ≠ [] ∧
      (∀ c ∈ style.slug, isSlugChar c = true) ∧
      Slug.Names used.dedup.length tag.toList style.slug) ∧
    (∀ tag style tag' style', rendering.styles.find? tag = some style →
      rendering.styles.find? tag' = some style' → style.slug = style'.slug → tag = tag') ∧
    rendering.colorNames.Nodup ∧
    ∀ state regions, ∀ pieces ∈ rendering.regionsFrom state regions, ∀ piece ∈ pieces,
      piece.Colored rendering.colorNames := by
  intro rendering used
  refine ⟨?_, ?_, StyleTable.nodup_definedNames tags settings used, colored_regionsFrom⟩
  · intro tag htag
    obtain ⟨style, hstyle⟩ := Option.isSome_iff_exists.mp
      (StyleTable.isSome_find?_ofTags tags settings htag)
    have hnames := StyleTable.names_of_mem (StyleTable.mem_of_find? hstyle)
    rw [StyleTable.length_sortTags] at hnames
    exact ⟨style, hstyle, hnames.ne_nil, hnames.isSlugChar, hnames⟩
  · intro tag style tag' style' h h'
    exact StyleTable.eq_of_slug_eq h h'

end Rendering

end Marginalia
