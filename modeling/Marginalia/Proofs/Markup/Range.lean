import Marginalia.Proofs.Unit
import Marginalia.Proofs.Markup.Reference

/-! # The ranges of visible units

A unit remembers the bytes that show it, and markup is cut at these places without a further check.
So a range has to be a slice of the markup that begins and ends between characters
(`VisibleUnit.ComesFrom`), and ranges must not run into each other.

Units share a range only where one piece shows several characters.  No piece shows more than one,
except for a reference to one of the names that stand for two (`Piece.isBrief_of_mem_pieces`).  So
what holds of the units of any pieces (`pairwise_unitsFrom_sublist`) says for markup that a range is
shared by two units at most, and which ones these are.
-/
namespace Marginalia.Markup

open Text

/-! ### What a reference shows -/

/-- A name stands for one character or for two. -/
theorem NamedCharacters.length_startingWith (c : Char) :
    (startingWith c).all (fun entry =>
      decide (0 < entry.2.toList.length ∧ entry.2.toList.length ≤ 2)) = true := by
  unfold startingWith
  split <;> decide +kernel

theorem NamedCharacters.length_of_find? {name shown : Text} (h : find? name = some shown) :
    0 < shown.length ∧ shown.length ≤ 2 := by
  obtain ⟨c, text, hmem, rfl⟩ := exists_mem_of_find? h
  exact of_decide_eq_true (List.all_eq_true.mp (length_startingWith c) _ hmem)

namespace Reference

variable {find? : Text → Option Text} {text : Text} {reference : Reference}

theorem find?_of_longest? {n : Nat} (h : longest? find? text n = some reference) :
    find? (text.take reference.length) = some reference.shown := by
  induction n with
  | zero => cases h
  | succ n ih =>
    rw [longest?] at h
    split at h
    · next shown hshown =>
      obtain rfl := Option.some.inj h
      exact hshown
    · exact ih h

/-- The text of a named reference is the name. -/
theorem find?_of_named? (h : named? find? text = some reference) :
    find? (text.take reference.length) = some reference.shown := by
  rcases named?_cases h with ⟨hlength, hsemicolon, hshown⟩ | h
  · rw [hlength, List.take_add_one, hsemicolon,
      ← List.prefix_iff_eq_take.mp (isPrefix_nameRun text)]
    exact hshown
  · exact find?_of_longest? h

theorem shown_of_numeric? (h : numeric? text = some reference) : ∃ c, reference.shown = [c] := by
  unfold numeric? at h
  obtain ⟨_, -, h⟩ := Option.bind_eq_some_iff.mp h
  obtain ⟨code, -, h⟩ := Option.bind_eq_some_iff.mp h
  obtain ⟨c, -, h⟩ := Option.bind_eq_some_iff.mp h
  exact ⟨c, by rw [← Option.some.inj h]⟩

/-- A reference shows one character, or what its name stands for. -/
theorem shown_of_read? (h : read? text = some reference) :
    (∃ c, reference.shown = [c]) ∨
      NamedCharacters.find? (text.take reference.length) = some reference.shown := by
  unfold read? at h
  split at h
  · exact .inl (shown_of_numeric? h)
  · exact .inr (find?_of_named? h)

end Reference

/-! ### What a piece shows -/

namespace Piece

/-- The piece shows at most one character, or it is a reference to a name that stands for two. -/
def IsBrief (piece : Piece) : Prop :=
  piece.shown.length ≤ 1 ∨ piece.shown.length = 2 ∧
    ∃ name, piece.source = '&' :: name ∧ NamedCharacters.find? name = some piece.shown

theorem IsBrief.length_le {piece : Piece} (h : piece.IsBrief) : piece.shown.length ≤ 2 := by
  rcases h with h | ⟨h, -⟩ <;> omega

theorem isBrief_of_mem_atoms {text : Text} {piece : Piece} (h : piece ∈ atoms text) :
    piece.IsBrief := by
  fun_induction atoms text with
  | case1 => simp at h
  | case2 c text reference hread ih =>
    rcases List.mem_cons.mp h with rfl | h
    · split at hread
      · next hamp =>
        rcases Reference.shown_of_read? hread with ⟨d, hshown⟩ | hfind
        · exact .inl (by simp [hshown])
        · have hlength := NamedCharacters.length_of_find? hfind
          by_cases hone : reference.shown.length ≤ 1
          · exact .inl hone
          · have htwo : reference.shown.length = 2 := by omega
            exact .inr ⟨htwo, text.take reference.length, by rw [hamp], hfind⟩
      · cases hread
    · exact ih h
  | case3 c text hread ih =>
    rcases List.mem_cons.mp h with rfl | h
    · exact .inl (Nat.le_refl 1)
    · exact ih h

theorem isBrief_of_mem_textPieces {mode : Whitespace} {text : Text} {piece : Piece}
    (h : piece ∈ textPieces mode text) : piece.IsBrief := by
  cases mode with
  | preserve => exact isBrief_of_mem_atoms h
  | collapse =>
    simp only [textPieces] at h
    split at h
    · rw [List.mem_singleton.mp h]
      exact .inl (Nat.zero_le 1)
    · rcases mem_collapse h with h | ⟨-, hshown⟩
      · exact isBrief_of_mem_atoms h
      · exact .inl (by rw [hshown]; exact Nat.le_refl 1)

theorem isBrief_tagPiece (text : Text) : (tagPiece text).1.IsBrief := by
  simp only [tagPiece]
  split
  · exact .inl (Nat.le_refl 1)
  · split <;> exact .inl (Nat.zero_le 1)

theorem isBrief_commentPiece (text : Text) : (commentPiece text).1.IsBrief := by
  unfold commentPiece
  split <;> exact .inl (Nat.zero_le 1)

theorem isBrief_of_mem_firstPieces {mode : Whitespace} {c : Char} {text : Text} {piece : Piece}
    (h : piece ∈ (firstPieces mode c text).1) : piece.IsBrief := by
  unfold firstPieces at h
  split at h
  · rw [List.mem_singleton.mp h]
    exact isBrief_commentPiece _
  · split at h
    · rw [List.mem_singleton.mp h]
      exact isBrief_tagPiece _
    · exact isBrief_of_mem_textPieces h

/-- A piece of markup shows at most one character, unless it is a reference to a name of two. -/
theorem isBrief_of_mem_pieces {mode : Whitespace} {text : Text} {piece : Piece}
    (h : piece ∈ pieces mode text) : piece.IsBrief := by
  obtain ⟨c, rest, hfirst⟩ := mem_pieces h
  exact isBrief_of_mem_firstPieces hfirst

end Piece

/-! ### The ranges of the units of pieces -/

namespace VisibleUnit

/-- The range of the unit is a slice of the markup, and this is the text in it. -/
def ComesFrom (unit : VisibleUnit) (markup source : Text) : Prop :=
  ∃ front back, markup = front ++ (source ++ back) ∧
    unit.start = front.byteLength ∧ unit.stop = (front ++ source).byteLength

theorem InPiece.comesFrom {before after : List Piece} {piece : Piece} {unit : VisibleUnit}
    (h : unit.InPiece 0 before piece) :
    unit.ComesFrom (Piece.sources (before ++ piece :: after)) piece.source := by
  refine ⟨Piece.sources before, Piece.sources after, ?_, ?_, ?_⟩
  · rw [Piece.sources_append, Piece.sources_cons]
  · rw [h.start, Nat.zero_add]
  · rw [h.stop, h.start, Nat.zero_add, byteLength_append]

/-- The units come from one reference, to a name that stands for both. -/
structure ShareReference (markup : Text) (u v : VisibleUnit) : Prop where
  sameRange : u.SameRange v
  reference : ∃ name, NamedCharacters.find? name = some [u.char, v.char] ∧
    u.ComesFrom markup ('&' :: name)

end VisibleUnit

variable {at' : Nat} {pieces : List Piece}

/-- Where no piece shows more than `n` characters, no range is that of more than `n` units. -/
theorem countP_range_le {n : Nat} (hsource : ∀ p ∈ pieces, p.source ≠ [])
    (hshown : ∀ p ∈ pieces, p.shown.length ≤ n) (start stop : Nat) :
    (unitsFrom at' pieces).countP (fun u => u.start = start ∧ u.stop = stop) ≤ n := by
  induction pieces generalizing at' with
  | nil => exact Nat.zero_le n
  | cons piece pieces ih =>
    have ih := @ih (at' + piece.source.byteLength)
      (fun p hp => hsource p (List.mem_cons_of_mem _ hp))
      (fun p hp => hshown p (List.mem_cons_of_mem _ hp))
    have hpos : 0 < piece.source.byteLength := byteLength_pos (hsource piece List.mem_cons_self)
    rw [unitsFrom, List.countP_append]
    by_cases hstart : start = at'
    · -- The later units begin behind this piece.
      have hlater : (unitsFrom (at' + piece.source.byteLength) pieces).countP
          (fun u => u.start = start ∧ u.stop = stop) = 0 := by
        refine List.countP_eq_zero.mpr fun u hu hrange => ?_
        have hle := le_start_of_mem_unitsFrom hu
        have hrange := of_decide_eq_true hrange
        omega
      rw [hlater, Nat.add_zero]
      refine Nat.le_trans List.countP_le_length ?_
      rw [List.length_map]
      exact hshown piece List.mem_cons_self
    · have hfirst : (piece.shown.map fun c =>
          (⟨c, at', at' + piece.source.byteLength⟩ : VisibleUnit)).countP
            (fun u => u.start = start ∧ u.stop = stop) = 0 := by
        refine List.countP_eq_zero.mpr fun u hu hrange => ?_
        obtain ⟨c, -, rfl⟩ := List.mem_map.mp hu
        exact hstart (of_decide_eq_true hrange).1.symm
      rw [hfirst, Nat.zero_add]
      exact ih

/-! ### The ranges of the units of markup -/

/-- **Ranges are ordered slices.**  The characters of the units are the visible text.  The range of
a unit is not empty and lies in the markup, where it begins and ends between characters.  A unit ends
before every later one begins, or the two share their range and come from one reference that stands
for both; no range is that of three units. -/
theorem visibleUnits_ordered (mode : Whitespace) (markup : Text) :
    (visibleUnits mode markup).map VisibleUnit.char = visibleText mode markup ∧
      (∀ unit ∈ visibleUnits mode markup, unit.start < unit.stop ∧
        unit.stop ≤ markup.byteLength ∧ ∃ source, source ≠ [] ∧ unit.ComesFrom markup source) ∧
      ((visibleUnits mode markup).Pairwise fun u v =>
        u.stop ≤ v.start ∨ u.ShareReference markup v) ∧
      ∀ start stop,
        (visibleUnits mode markup).countP (fun u => u.start = start ∧ u.stop = stop) ≤ 2 := by
  have hsource : ∀ p ∈ pieces mode markup, p.source ≠ [] := fun p => source_ne_nil_of_mem_pieces
  have hbrief : ∀ p ∈ pieces mode markup, p.IsBrief := fun p => Piece.isBrief_of_mem_pieces
  have hmarkup := sources_pieces mode markup
  refine ⟨map_char_units _, fun unit hunit => ⟨?_, ?_, ?_⟩, ?_, fun start stop => ?_⟩
  · exact start_lt_stop_of_mem_unitsFrom hsource hunit
  · have hle := stop_le_of_mem_unitsFrom hunit
    rwa [hmarkup, Nat.zero_add] at hle
  · obtain ⟨before, piece, after, hpieces, hin⟩ := inPiece_of_mem_unitsFrom hunit
    refine ⟨piece.source, hsource piece (by simp [hpieces]), ?_⟩
    rw [← hmarkup, hpieces]
    exact hin.comesFrom
  · refine (pairwise_unitsFrom_sublist 0 (pieces mode markup)).imp ?_
    rintro u v (hle | ⟨hsame, before, piece, after, hpieces, hin, hsublist⟩)
    · exact .inl hle
    · refine .inr ⟨hsame, ?_⟩
      have htwo : 2 ≤ piece.shown.length := hsublist.length_le
      rcases hbrief piece (by simp [hpieces]) with hshort | ⟨hlength, name, hname, hfind⟩
      · omega
      · have hshown : [u.char, v.char] = piece.shown := hsublist.eq_of_length hlength.symm
        refine ⟨name, by rw [hfind, hshown], ?_⟩
        rw [← hname, ← hmarkup, hpieces]
        exact hin.comesFrom
  · exact countP_range_le hsource (fun p hp => (hbrief p hp).length_le) start stop

/-- A tag, a collapsed run of white space, and a reference that stands for two characters. -/
example :
    visibleUnits .collapse "<b>x \n&NotEqualTilde;</b>".toList =
      [⟨'x', 3, 4⟩, ⟨' ', 4, 6⟩, ⟨'≂', 6, 21⟩, ⟨'\u0338', 6, 21⟩] := by
  decide +kernel

end Marginalia.Markup
