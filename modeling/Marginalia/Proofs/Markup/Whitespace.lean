import Marginalia.Proofs.Unit
import Mathlib.Data.List.Forall2

/-! # The two ways to count white space

Collapsing and preserving white space give the same units, with the same ranges, but for units of
white space, and of these collapsing never gives more between two others (`visibleUnits_condensed`).

Collapsing goes through the pieces that preserving gives: it joins a run of blank ones into one and
leaves the others as they are (`condensed_collapse`), or it takes all of a text that only lays out the
source, where every piece is blank (`condensed_textPieces`).  Either way the units arise by putting
fewer blank ones for a row of blank ones (`Condensed`).
-/
namespace Marginalia.Markup

open Text Piece

/-- The unit shows white space. -/
def VisibleUnit.isBlank (unit : VisibleUnit) : Bool :=
  isMarkupBlank unit.char

/-- The units that do not show white space. -/
def inked (units : List VisibleUnit) : List VisibleUnit :=
  units.filter (!·.isBlank)

/-- The numbers of units of white space before the first other unit, between each of those and the
next, and after the last. -/
def gaps (units : List VisibleUnit) : List Nat :=
  (units.splitOnP (!·.isBlank)).map List.length

/-- Fewer units of white space for some, and all other units alike. -/
inductive Condensed : List VisibleUnit → List VisibleUnit → Prop
  | nil : Condensed [] []
  | unit (u : VisibleUnit) {us vs : List VisibleUnit} (h : Condensed us vs) :
      Condensed (u :: us) (u :: vs)
  | blanks {run run' us vs : List VisibleUnit} (hrun : ∀ u ∈ run, u.isBlank = true)
      (hrun' : ∀ u ∈ run', u.isBlank = true) (hle : run.length ≤ run'.length)
      (h : Condensed us vs) : Condensed (run ++ us) (run' ++ vs)

/-! ### What condensing keeps -/

section gaps

variable {u : VisibleUnit} {run us vs : List VisibleUnit}

theorem inked_blanks (h : ∀ u ∈ run, u.isBlank = true) (us : List VisibleUnit) :
    inked (run ++ us) = inked us := by
  have hnone : run.filter (!·.isBlank) = [] :=
    List.filter_eq_nil_iff.mpr fun u hu => by simp [h u hu]
  rw [inked, List.filter_append, hnone, List.nil_append]
  rfl

theorem gaps_cons_of_blank (h : u.isBlank = true) (us : List VisibleUnit) :
    gaps (u :: us) = (gaps us).modifyHead (· + 1) := by
  rw [gaps, gaps, List.splitOnP_cons_eq_if_modifyHead, if_neg (by simp [h])]
  cases us.splitOnP (!·.isBlank) <;> rfl

theorem gaps_cons_of_inked (h : u.isBlank = false) (us : List VisibleUnit) :
    gaps (u :: us) = 0 :: gaps us := by
  rw [gaps, gaps, List.splitOnP_cons_eq_if_modifyHead, if_pos (by simp [h])]
  rfl

theorem gaps_blanks (h : ∀ u ∈ run, u.isBlank = true) (us : List VisibleUnit) :
    gaps (run ++ us) = (gaps us).modifyHead (· + run.length) := by
  induction run with
  | nil => cases hgaps : gaps us <;> simp [hgaps]
  | cons u run ih =>
    obtain ⟨hu, hrun⟩ := List.forall_mem_cons.mp h
    rw [List.cons_append, gaps_cons_of_blank hu, ih hrun]
    cases gaps us with
    | nil => rfl
    | cons n ns => simp [Nat.add_assoc]

theorem forall₂_modifyHead {m n : Nat} {ms ns : List Nat} (h : List.Forall₂ (· ≤ ·) ms ns)
    (hle : m ≤ n) :
    List.Forall₂ (· ≤ ·) (ms.modifyHead (· + m)) (ns.modifyHead (· + n)) := by
  cases h with
  | nil => exact .nil
  | cons hhead htail => exact .cons (Nat.add_le_add hhead hle) htail

/-- Condensing keeps all units but those of white space, and makes no gap between them longer. -/
theorem Condensed.inked_gaps (h : Condensed us vs) :
    inked us = inked vs ∧ List.Forall₂ (· ≤ ·) (gaps us) (gaps vs) := by
  induction h with
  | nil => exact ⟨rfl, List.forall₂_refl _⟩
  | unit u _ ih =>
    obtain ⟨hinked, hgaps⟩ := ih
    cases hu : u.isBlank with
    | true =>
      have hone : ∀ v ∈ [u], v.isBlank = true := List.forall_mem_singleton.mpr hu
      have hskip := inked_blanks hone
      simp only [List.singleton_append] at hskip
      rw [hskip, hskip, gaps_cons_of_blank hu, gaps_cons_of_blank hu]
      exact ⟨hinked, forall₂_modifyHead hgaps (Nat.le_refl 1)⟩
    | false =>
      rw [gaps_cons_of_inked hu, gaps_cons_of_inked hu]
      refine ⟨?_, .cons (Nat.le_refl 0) hgaps⟩
      rw [inked, inked, List.filter_cons_of_pos (by simp [hu]),
        List.filter_cons_of_pos (by simp [hu])]
      exact congrArg (u :: ·) hinked
  | blanks hrun hrun' hle _ ih =>
    rw [inked_blanks hrun, inked_blanks hrun', gaps_blanks hrun, gaps_blanks hrun']
    exact ⟨ih.1, forall₂_modifyHead ih.2 hle⟩

end gaps

/-! ### Rows of condensed units -/

namespace Condensed

variable {us vs us' vs' : List VisibleUnit}

theorem refl (us : List VisibleUnit) : Condensed us us := by
  induction us with
  | nil => exact .nil
  | cons u us ih => exact .unit u ih

theorem append (h : Condensed us vs) (h' : Condensed us' vs') :
    Condensed (us ++ us') (vs ++ vs') := by
  induction h with
  | nil => exact h'
  | unit u _ ih => exact .unit u ih
  | blanks hrun hrun' hle _ ih =>
    rw [List.append_assoc, List.append_assoc]
    exact .blanks hrun hrun' hle ih

/-- Fewer units of white space for a row of them. -/
theorem of_blanks (hus : ∀ u ∈ us, u.isBlank = true) (hvs : ∀ v ∈ vs, v.isBlank = true)
    (hle : us.length ≤ vs.length) : Condensed us vs := by
  have h := blanks hus hvs hle nil
  rwa [List.append_nil, List.append_nil] at h

end Condensed

/-! ### Collapsing condenses -/

variable {run : List Piece} {at' : Nat}

theorem exists_shown_of_isBlank {piece : Piece} (h : piece.isBlank = true) :
    ∃ c, piece.shown = [c] ∧ isMarkupBlank c = true := by
  unfold Piece.isBlank at h
  split at h
  · next c hshown => exact ⟨c, hshown, h⟩
  · cases h

/-- Blank pieces show a unit of white space each. -/
theorem unitsFrom_blanks (h : ∀ p ∈ run, p.isBlank = true) (at' : Nat) :
    (∀ u ∈ unitsFrom at' run, u.isBlank = true) ∧ (unitsFrom at' run).length = run.length := by
  induction run generalizing at' with
  | nil => exact ⟨List.forall_mem_nil _, rfl⟩
  | cons piece run ih =>
    obtain ⟨hpiece, hrun⟩ := List.forall_mem_cons.mp h
    obtain ⟨c, hshown, hc⟩ := exists_shown_of_isBlank hpiece
    obtain ⟨hblank, hlength⟩ := ih hrun (at' + piece.source.byteLength)
    rw [unitsFrom, hshown]
    refine ⟨List.forall_mem_cons.mpr ⟨hc, hblank⟩, ?_⟩
    rw [List.map_singleton, List.singleton_append, List.length_cons, List.length_cons, hlength]

/-- The piece for a run of blank pieces shows no more than these. -/
theorem condensed_blankPiece (h : ∀ p ∈ run, p.isBlank = true) :
    Condensed (unitsFrom at' (blankPiece (sources run))) (unitsFrom at' run) := by
  obtain ⟨hblank, hlength⟩ := unitsFrom_blanks h at'
  unfold blankPiece
  split
  · exact .of_blanks (List.forall_mem_nil _) hblank (Nat.zero_le _)
  · next hne =>
    refine .of_blanks (List.forall_mem_singleton.mpr rfl) hblank ?_
    have hrun : run ≠ [] := fun hnil => hne (by rw [hnil]; rfl)
    rw [hlength]
    exact List.length_pos_iff.mpr hrun

/-- Collapsing joins blank pieces and leaves the others. -/
theorem condensed_collapse (h : ∀ p ∈ run, p.isBlank = true) (pieces : List Piece) :
    Condensed (unitsFrom at' (collapse (sources run) pieces)) (unitsFrom at' (run ++ pieces)) := by
  induction pieces generalizing run at' with
  | nil =>
    rw [collapse, List.append_nil]
    exact condensed_blankPiece h
  | cons piece pieces ih =>
    rw [collapse]
    split
    · next hpiece =>
      have hrun : ∀ p ∈ run ++ [piece], p.isBlank = true := by
        intro p hp
        rcases List.mem_append.mp hp with hp | hp
        · exact h p hp
        · rw [List.mem_singleton.mp hp]
          exact hpiece
      have hgoes : Condensed (unitsFrom at' (collapse (sources (run ++ [piece])) pieces))
          (unitsFrom at' (run ++ [piece] ++ pieces)) := ih hrun
      rwa [sources_append, sources_cons, sources_nil, List.append_nil, List.append_assoc,
        List.singleton_append] at hgoes
    · rw [unitsFrom_append, unitsFrom_append, sources_blankPiece, unitsFrom, unitsFrom]
      exact (condensed_blankPiece h).append ((Condensed.refl _).append (ih (List.forall_mem_nil _)))

/-- Every piece of a text of white space is blank. -/
theorem isBlank_of_mem_atoms {text : Text} (h : ∀ c ∈ text, isMarkupBlank c = true) {piece : Piece}
    (hp : piece ∈ atoms text) : piece.isBlank = true := by
  induction text with
  | nil => simp [atoms] at hp
  | cons c text ih =>
    obtain ⟨hc, htext⟩ := List.forall_mem_cons.mp h
    have hne : c ≠ '&' := by
      rintro rfl
      exact absurd hc (by decide)
    rw [atoms, if_neg hne] at hp
    rcases List.mem_cons.mp hp with rfl | hp
    · exact hc
    · exact ih htext hp

theorem condensed_textPieces (at' : Nat) (text : Text) :
    Condensed (unitsFrom at' (textPieces .collapse text))
      (unitsFrom at' (textPieces .preserve text)) := by
  simp only [textPieces]
  split
  · next hlayout =>
    have hblank : ∀ c ∈ text, isMarkupBlank c = true := by
      rw [isLayout, Bool.and_eq_true, List.all_eq_true] at hlayout
      exact hlayout.2
    obtain ⟨hunits, -⟩ := unitsFrom_blanks (fun p hp => isBlank_of_mem_atoms hblank hp) at'
    exact .of_blanks (List.forall_mem_nil _) hunits (Nat.zero_le _)
  · exact condensed_collapse (List.forall_mem_nil _) (atoms text)

/-- The first pieces of a text end at the same place in both modes. -/
theorem condensed_firstPieces (at' : Nat) (c : Char) (text : Text) :
    Condensed (unitsFrom at' (firstPieces .collapse c text).1)
        (unitsFrom at' (firstPieces .preserve c text).1) ∧
      sources (firstPieces .collapse c text).1 = sources (firstPieces .preserve c text).1 ∧
      (firstPieces .collapse c text).2 = (firstPieces .preserve c text).2 := by
  unfold firstPieces
  split
  · exact ⟨Condensed.refl _, rfl, rfl⟩
  · split
    · exact ⟨Condensed.refl _, rfl, rfl⟩
    · refine ⟨condensed_textPieces at' _, ?_, rfl⟩
      rw [sources_textPieces, sources_textPieces]

theorem condensed_pieces (at' : Nat) (text : Text) :
    Condensed (unitsFrom at' (pieces .collapse text)) (unitsFrom at' (pieces .preserve text)) := by
  fun_induction pieces .collapse text generalizing at' with
  | case1 =>
    rw [pieces]
    exact Condensed.refl _
  | case2 c text read ih =>
    obtain ⟨hfirst, hsources, hrest⟩ := condensed_firstPieces at' c text
    rw [pieces, unitsFrom_append, unitsFrom_append, ← hsources, ← hrest]
    exact hfirst.append (ih _)

/-- **The modes differ in white space only.**  The units that do not show white space are the same in
both modes, with their ranges, and between two of them, before the first and after the last,
collapsing gives no more units than preserving. -/
theorem visibleUnits_condensed (markup : Text) :
    inked (visibleUnits .collapse markup) = inked (visibleUnits .preserve markup) ∧
      List.Forall₂ (· ≤ ·) (gaps (visibleUnits .collapse markup))
        (gaps (visibleUnits .preserve markup)) :=
  (condensed_pieces 0 markup).inked_gaps

/-- White space that lays out the source, and a run with a reference in it. -/
example :
    let markup := "<div>\n  <p>a &#32; b</p>\n</div>".toList
    gaps (visibleUnits .collapse markup) = [0, 1, 0] ∧
      gaps (visibleUnits .preserve markup) = [3, 3, 1] := by
  decide +kernel

end Marginalia.Markup
