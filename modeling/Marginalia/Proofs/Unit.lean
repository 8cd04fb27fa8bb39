import Marginalia.Markup.Visible
import Marginalia.Proofs.Text
import Marginalia.Text.Cluster

/-! # Where visible units come from

A visible unit comes from the bytes of a piece (`inPiece_of_mem_unitsFrom`), and no piece of a
marked-up text is empty, so its range is not empty (`start_lt_stop_of_mem_unitsFrom`).  Units of one
piece share its range, and otherwise the range of a unit ends before that of a later one begins
(`pairwise_unitsFrom`).

The boundaries of grapheme clusters lie within the text, so widening a range of units keeps it
within the text (`floorIn_le`, `le_ceilIn`, `ceilIn_le`).
-/
namespace Marginalia

open Text

namespace Text

/-! ### Cluster boundaries -/

theorem le_of_mem_boundariesFrom {start b : Nat} {clusters : List Text}
    (h : b ∈ boundariesFrom start clusters) : b ≤ start + clusters.flatten.length := by
  induction clusters generalizing start with
  | nil => simp [boundariesFrom] at h
  | cons cluster clusters ih =>
    rw [List.flatten_cons, List.length_append, ← Nat.add_assoc]
    rcases List.mem_cons.mp h with rfl | h
    · exact Nat.le_add_right _ _
    · exact ih h

/-- No boundary lies past the end of the text. -/
theorem le_length_of_mem_boundaries {text : Text} {b : Nat} (h : b ∈ boundaries text) :
    b ≤ text.length := by
  rcases List.mem_cons.mp h with rfl | h
  · exact Nat.zero_le _
  · have hle := le_of_mem_boundariesFrom h
    rwa [Nat.zero_add, clusters_flatten] at hle

theorem floorIn_le (bounds : List Nat) (k : Nat) : floorIn bounds k ≤ k := by
  have hfold : ∀ best ≤ k, bounds.foldl (fun best b => if b ≤ k then b else best) best ≤ k := by
    induction bounds with
    | nil => exact fun best hbest => hbest
    | cons b bounds ih =>
      intro best hbest
      rw [List.foldl_cons]
      refine ih _ ?_
      split <;> assumption
  exact hfold 0 (Nat.zero_le k)

theorem le_ceilIn (bounds : List Nat) (k : Nat) : k ≤ ceilIn bounds k := by
  rw [ceilIn]
  cases hfind : bounds.find? (k ≤ ·) with
  | none => exact Nat.le_refl k
  | some b => simpa using List.find?_some hfind

theorem ceilIn_le {bounds : List Nat} {k n : Nat} (hbounds : ∀ b ∈ bounds, b ≤ n) (hk : k ≤ n) :
    ceilIn bounds k ≤ n := by
  rw [ceilIn]
  cases hfind : bounds.find? (k ≤ ·) with
  | none => exact hk
  | some b => exact hbounds b (List.mem_of_find?_eq_some hfind)

end Text

namespace Markup

/-! ### The sources of pieces -/

theorem source_ne_nil_of_mem_atoms {text : Text} {piece : Piece} (h : piece ∈ atoms text) :
    piece.source ≠ [] := by
  fun_induction atoms text with
  | case1 => simp at h
  | case2 c text reference hread ih =>
    rcases List.mem_cons.mp h with rfl | h
    · exact List.cons_ne_nil _ _
    · exact ih h
  | case3 c text hread ih =>
    rcases List.mem_cons.mp h with rfl | h
    · exact List.cons_ne_nil _ _
    · exact ih h

theorem mem_blankPiece {run : Text} {piece : Piece} (h : piece ∈ blankPiece run) :
    piece.source ≠ [] ∧ piece.shown = [' '] := by
  unfold blankPiece at h
  split at h
  · simp at h
  · next hrun =>
    rw [List.mem_singleton.mp h]
    exact ⟨by simpa using hrun, rfl⟩

/-- Collapsing keeps a piece or puts a space for a run of white space. -/
theorem mem_collapse {run : Text} {pieces : List Piece} {piece : Piece}
    (h : piece ∈ collapse run pieces) :
    piece ∈ pieces ∨ piece.source ≠ [] ∧ piece.shown = [' '] := by
  induction pieces generalizing run with
  | nil => exact .inr (mem_blankPiece h)
  | cons p pieces ih =>
    rw [collapse] at h
    split at h
    · exact (ih h).imp_left (List.mem_cons_of_mem p)
    · rcases List.mem_append.mp h with h | h
      · exact .inr (mem_blankPiece h)
      · rcases List.mem_cons.mp h with rfl | h
        · exact .inl List.mem_cons_self
        · exact (ih h).imp_left (List.mem_cons_of_mem p)

theorem source_ne_nil_of_mem_textPieces {mode : Whitespace} {text : Text} {piece : Piece}
    (htext : text ≠ []) (h : piece ∈ textPieces mode text) : piece.source ≠ [] := by
  cases mode with
  | preserve => exact source_ne_nil_of_mem_atoms h
  | collapse =>
    simp only [textPieces] at h
    split at h
    · rw [List.mem_singleton.mp h]
      exact htext
    · rcases mem_collapse h with h | ⟨hsource, -⟩
      · exact source_ne_nil_of_mem_atoms h
      · exact hsource

theorem source_tagPiece_ne_nil (text : Text) : (tagPiece text).1.source ≠ [] := by
  have hlen := congrArg List.length (tagPiece_append text)
  have hrest := length_tagPiece_le text
  intro hnil
  simp [hnil] at hlen
  omega

theorem source_commentPiece_ne_nil (text : Text) : (commentPiece text).1.source ≠ [] := by
  unfold commentPiece
  split <;> simp

theorem source_ne_nil_of_mem_firstPieces {mode : Whitespace} {c : Char} {text : Text}
    {piece : Piece} (h : piece ∈ (firstPieces mode c text).1) : piece.source ≠ [] := by
  unfold firstPieces at h
  split at h
  · rw [List.mem_singleton.mp h]
    exact source_commentPiece_ne_nil _
  · split at h
    · rw [List.mem_singleton.mp h]
      exact source_tagPiece_ne_nil _
    · exact source_ne_nil_of_mem_textPieces (List.cons_ne_nil _ _) h

/-- A piece is one of the first pieces of some rest of the text. -/
theorem mem_pieces {mode : Whitespace} {text : Text} {piece : Piece}
    (h : piece ∈ pieces mode text) : ∃ c rest, piece ∈ (firstPieces mode c rest).1 := by
  fun_induction pieces mode text with
  | case1 => simp at h
  | case2 c text read ih =>
    rcases List.mem_append.mp h with h | h
    · exact ⟨c, text, h⟩
    · exact ih h

/-- No piece of a marked-up text is empty. -/
theorem source_ne_nil_of_mem_pieces {mode : Whitespace} {text : Text} {piece : Piece}
    (h : piece ∈ pieces mode text) : piece.source ≠ [] := by
  obtain ⟨c, rest, hfirst⟩ := mem_pieces h
  exact source_ne_nil_of_mem_firstPieces hfirst

/-! ### The ranges of units -/

/-- The range of the unit holds the piece behind the pieces before it. -/
structure VisibleUnit.InPiece (at' : Nat) (before : List Piece) (piece : Piece) (unit : VisibleUnit) :
    Prop where
  start : unit.start = at' + (Piece.sources before).byteLength
  stop : unit.stop = unit.start + piece.source.byteLength

variable {at' : Nat} {pieces : List Piece} {unit : VisibleUnit}

theorem VisibleUnit.InPiece.cons {before : List Piece} {first piece : Piece}
    (h : unit.InPiece (at' + first.source.byteLength) before piece) :
    unit.InPiece at' (first :: before) piece where
  start := by rw [h.start, Piece.sources_cons, byteLength_append, Nat.add_assoc]
  stop := h.stop

theorem inPiece_of_mem_unitsFrom (h : unit ∈ unitsFrom at' pieces) :
    ∃ before piece after, pieces = before ++ piece :: after ∧ unit.InPiece at' before piece := by
  induction pieces generalizing at' with
  | nil => simp [unitsFrom] at h
  | cons piece pieces ih =>
    rcases List.mem_append.mp h with h | h
    · obtain ⟨c, -, rfl⟩ := List.mem_map.mp h
      exact ⟨[], piece, pieces, rfl, rfl, rfl⟩
    · obtain ⟨before, q, after, rfl, hin⟩ := ih h
      exact ⟨piece :: before, q, after, rfl, hin.cons⟩

theorem le_start_of_mem_unitsFrom (h : unit ∈ unitsFrom at' pieces) : at' ≤ unit.start := by
  obtain ⟨before, piece, after, -, hin⟩ := inPiece_of_mem_unitsFrom h
  rw [hin.start]
  exact Nat.le_add_right _ _

/-- The range of a unit is not empty. -/
theorem start_lt_stop_of_mem_unitsFrom (hpieces : ∀ p ∈ pieces, p.source ≠ [])
    (h : unit ∈ unitsFrom at' pieces) : unit.start < unit.stop := by
  obtain ⟨before, piece, after, rfl, hin⟩ := inPiece_of_mem_unitsFrom h
  rw [hin.stop]
  exact Nat.lt_add_of_pos_right (byteLength_pos (hpieces piece (by simp)))

theorem stop_le_of_mem_unitsFrom (h : unit ∈ unitsFrom at' pieces) :
    unit.stop ≤ at' + (Piece.sources pieces).byteLength := by
  obtain ⟨before, piece, after, rfl, hin⟩ := inPiece_of_mem_unitsFrom h
  rw [hin.stop, hin.start, Piece.sources_append, Piece.sources_cons, byteLength_append,
    byteLength_append]
  omega

theorem unitsFrom_append (at' : Nat) (ps qs : List Piece) : unitsFrom at' (ps ++ qs) =
    unitsFrom at' ps ++ unitsFrom (at' + (Piece.sources ps).byteLength) qs := by
  induction ps generalizing at' with
  | nil => rfl
  | cons p ps ih =>
    rw [List.cons_append, unitsFrom, unitsFrom, ih, List.append_assoc, Piece.sources_cons,
      byteLength_append, Nat.add_assoc]

/-- Whether the units come from the same bytes. -/
def VisibleUnit.SameRange (u v : VisibleUnit) : Prop :=
  u.start = v.start ∧ u.stop = v.stop

/-- A unit ends before a later one begins, unless one piece shows both, in this order. -/
theorem pairwise_unitsFrom_sublist (at' : Nat) (pieces : List Piece) :
    (unitsFrom at' pieces).Pairwise fun u v => u.stop ≤ v.start ∨ u.SameRange v ∧
      ∃ before piece after, pieces = before ++ piece :: after ∧ u.InPiece at' before piece ∧
        [u.char, v.char].Sublist piece.shown := by
  induction pieces generalizing at' with
  | nil => exact List.Pairwise.nil
  | cons piece pieces ih =>
    rw [unitsFrom]
    refine List.pairwise_append.mpr ⟨?_, (ih _).imp ?_, ?_⟩
    · rw [List.pairwise_map, List.pairwise_iff_forall_sublist]
      intro c d hsublist
      exact .inr ⟨⟨rfl, rfl⟩, [], piece, pieces, rfl, ⟨rfl, rfl⟩, hsublist⟩
    · rintro u v (hle | ⟨hsame, before, q, after, rfl, hin, hsublist⟩)
      · exact .inl hle
      · exact .inr ⟨hsame, piece :: before, q, after, rfl, hin.cons, hsublist⟩
    · intro u hu v hv
      obtain ⟨c, -, rfl⟩ := List.mem_map.mp hu
      exact .inl (le_start_of_mem_unitsFrom hv)

/-- A unit comes from the same bytes as a later one, or from bytes before those. -/
theorem pairwise_unitsFrom (at' : Nat) (pieces : List Piece) :
    (unitsFrom at' pieces).Pairwise fun u v => u.stop ≤ v.start ∨ u.SameRange v :=
  (pairwise_unitsFrom_sublist at' pieces).imp (Or.imp_right And.left)

end Markup

end Marginalia
