import Marginalia.Proofs.Placement
import Mathlib.Data.List.Forall2
import Mathlib.Order.Bounds.Defs

/-! # Which highlights are placed, and where

A highlight is placed if it covers something and does not go past the visible text.  It begins at the
last boundary of a grapheme cluster that is not behind its start and ends at the first one that is not
before its stop, so it grows no more than it must (`Placed.Widened`).  All others are left out, with
the reason, and leave no trace in what is placed (`Injection.inject_fitting`).

The boundaries of the text ascend, which is all that the search for the last and the first one needs
(`isGreatest_floorIn`, `isLeast_ceilIn`); both ends of the text are boundaries, so neither search is in
vain.
-/
namespace Marginalia

open Text Markup

namespace Text

/-! ### Boundaries of clusters -/

/-- The first so many characters of the text are a row of its clusters. -/
def IsBoundary (text : Text) (k : Nat) : Prop :=
  ∃ front back, clusters text = front ++ back ∧ k = front.flatten.length

theorem mem_boundariesFrom {start b : Nat} {clusters : List Text} :
    b ∈ boundariesFrom start clusters ↔
      ∃ front back, clusters = front ++ back ∧ front ≠ [] ∧ b = start + front.flatten.length := by
  induction clusters generalizing start with
  | nil =>
    rw [boundariesFrom]
    constructor
    · exact fun h => absurd h List.not_mem_nil
    · rintro ⟨front, back, hsplit, hne, -⟩
      exact absurd (List.append_eq_nil_iff.mp hsplit.symm).1 hne
  | cons cluster clusters ih =>
    rw [boundariesFrom, List.mem_cons, ih]
    constructor
    · rintro (rfl | ⟨front, back, rfl, -, rfl⟩)
      · exact ⟨[cluster], clusters, rfl, by simp, by simp⟩
      · exact ⟨cluster :: front, back, rfl, by simp, by simp [Nat.add_assoc]⟩
    · rintro ⟨front, back, hsplit, hne, rfl⟩
      obtain ⟨first, front, rfl⟩ := List.exists_cons_of_ne_nil hne
      obtain ⟨rfl, hrest⟩ := List.cons.inj hsplit
      by_cases hfront : front = []
      · exact .inl (by simp [hfront])
      · exact .inr ⟨front, back, hrest, hfront, by simp [Nat.add_assoc]⟩

theorem mem_boundaries {text : Text} {k : Nat} : k ∈ boundaries text ↔ IsBoundary text k := by
  rw [boundaries, List.mem_cons, mem_boundariesFrom]
  constructor
  · rintro (rfl | ⟨front, back, hsplit, -, rfl⟩)
    · exact ⟨[], clusters text, rfl, rfl⟩
    · exact ⟨front, back, hsplit, by simp⟩
  · rintro ⟨front, back, hsplit, rfl⟩
    by_cases hfront : front = []
    · exact .inl (by simp [hfront])
    · exact .inr ⟨front, back, hsplit, hfront, by simp⟩

/-- The end of the text is a boundary. -/
theorem isBoundary_length (text : Text) : IsBoundary text text.length :=
  ⟨clusters text, [], by simp, by rw [clusters_flatten]⟩

theorem pairwise_boundariesFrom (start : Nat) (clusters : List Text) :
    (start :: boundariesFrom start clusters).Pairwise (· ≤ ·) := by
  induction clusters generalizing start with
  | nil => exact List.pairwise_singleton _ _
  | cons cluster clusters ih =>
    have hrest := ih (start + cluster.length)
    refine List.pairwise_cons.mpr ⟨fun b hb => ?_, hrest⟩
    rcases List.mem_cons.mp hb with rfl | hb
    · exact Nat.le_add_right _ _
    · exact Nat.le_trans (Nat.le_add_right _ _) ((List.pairwise_cons.mp hrest).1 b hb)

/-- The boundaries of a text ascend. -/
theorem pairwise_boundaries (text : Text) : (boundaries text).Pairwise (· ≤ ·) :=
  pairwise_boundariesFrom 0 (clusters text)

/-! ### The boundary before and the boundary behind -/

variable {bounds : List Nat} {best k : Nat}

/-- Going on from one boundary, the last one that is not behind `k` is kept. -/
theorem isGreatest_foldl (hsorted : (best :: bounds).Pairwise (· ≤ ·)) (hbest : best ≤ k) :
    IsGreatest {b | b ∈ best :: bounds ∧ b ≤ k}
      (bounds.foldl (fun best b => if b ≤ k then b else best) best) := by
  induction bounds generalizing best with
  | nil =>
    refine ⟨⟨List.mem_cons_self, hbest⟩, ?_⟩
    rintro b ⟨hb, -⟩
    exact Nat.le_of_eq (List.mem_singleton.mp hb)
  | cons b bounds ih =>
    obtain ⟨hle, hsorted⟩ := List.pairwise_cons.mp hsorted
    rw [List.foldl_cons]
    by_cases hb : b ≤ k
    · rw [if_pos hb]
      obtain ⟨⟨hmem, hk⟩, hgreatest⟩ := ih hsorted hb
      refine ⟨⟨List.mem_cons_of_mem _ hmem, hk⟩, ?_⟩
      rintro c ⟨hc, hck⟩
      rcases List.mem_cons.mp hc with rfl | hc
      · exact Nat.le_trans (hle b List.mem_cons_self) (hgreatest ⟨List.mem_cons_self, hb⟩)
      · exact hgreatest ⟨hc, hck⟩
    · rw [if_neg hb]
      have hskip : (best :: bounds).Pairwise (· ≤ ·) :=
        List.pairwise_cons.mpr
          ⟨fun c hc => hle c (List.mem_cons_of_mem b hc), (List.pairwise_cons.mp hsorted).2⟩
      obtain ⟨⟨hmem, hk⟩, hgreatest⟩ := ih hskip hbest
      refine ⟨⟨?_, hk⟩, ?_⟩
      · rw [List.mem_cons] at hmem ⊢
        exact hmem.imp_right (List.mem_cons_of_mem b)
      · rintro c ⟨hc, hck⟩
        refine hgreatest ⟨?_, hck⟩
        rw [List.mem_cons, List.mem_cons] at hc
        rcases hc with rfl | rfl | hc
        · exact List.mem_cons_self
        · exact absurd hck hb
        · exact List.mem_cons_of_mem _ hc

/-- The start of a widened highlight is the last boundary that is not behind it. -/
theorem isGreatest_floorIn (text : Text) (k : Nat) :
    IsGreatest {b | IsBoundary text b ∧ b ≤ k} (floorIn (boundaries text) k) := by
  simp only [← mem_boundaries]
  have hfold := isGreatest_foldl (pairwise_boundaries text) (Nat.zero_le k)
  rwa [floorIn, boundaries, List.foldl_cons, if_pos (Nat.zero_le k)]

/-- The stop of a widened highlight is the first boundary that is not before it. -/
theorem isLeast_ceilIn {text : Text} (hk : k ≤ text.length) :
    IsLeast {b | IsBoundary text b ∧ k ≤ b} (ceilIn (boundaries text) k) := by
  simp only [← mem_boundaries]
  have hlast : text.length ∈ boundaries text := mem_boundaries.mpr (isBoundary_length text)
  have hsome : ((boundaries text).find? (k ≤ ·)).isSome := by
    rw [List.find?_isSome]
    exact ⟨text.length, hlast, by simpa using hk⟩
  obtain ⟨first, hfirst⟩ := Option.isSome_iff_exists.mp hsome
  rw [ceilIn, hfirst, Option.getD_some]
  obtain ⟨hle, before, after, hsplit, hbefore⟩ := List.find?_eq_some_iff_append.mp hfirst
  have hle : k ≤ first := by simpa using hle
  have hsorted := pairwise_boundaries text
  rw [hsplit] at hsorted ⊢
  refine ⟨⟨by simp, hle⟩, ?_⟩
  rintro b ⟨hb, hkb⟩
  rcases List.mem_append.mp hb with hb | hb
  · have hlt := hbefore b hb
    simp only [Bool.not_eq_true', decide_eq_false_iff_not] at hlt
    exact absurd hkb hlt
  · rcases List.mem_cons.mp hb with rfl | hb
    · exact Nat.le_refl b
    · exact (List.pairwise_cons.mp (List.pairwise_append.mp hsorted).2.1).1 b hb

end Text

/-- The highlight covers something and does not go past a text of so many visible units. -/
def Highlight.FitsIn (highlight : Highlight) (length : Nat) : Prop :=
  highlight.start < highlight.stop ∧ highlight.stop ≤ length

instance (highlight : Highlight) (length : Nat) : Decidable (highlight.FitsIn length) :=
  inferInstanceAs (Decidable (_ ∧ _))

/-- What is told of a highlight that was left out of a text of so many visible units. -/
structure Skipped.Reports (length : Nat) (highlight : Highlight) (skipped : Skipped) : Prop where
  id : skipped.id = highlight.id
  start : skipped.start = highlight.start
  stop : skipped.stop = highlight.stop
  reason : highlight.stop ≤ highlight.start ∧ skipped.reason = .empty ∨
    highlight.start < highlight.stop ∧ length < highlight.stop ∧
      skipped.reason = .outOfBounds length

/-- The highlight in place is as short as it can be without cutting a cluster of the text. -/
structure Placed.Widened (text : Text) (placed : Placed) : Prop where
  start : IsGreatest {b | IsBoundary text b ∧ b ≤ placed.highlight.start} placed.start
  stop : IsLeast {b | IsBoundary text b ∧ placed.highlight.stop ≤ b} placed.stop

namespace Injection

variable {units : Array VisibleUnit} {bounds : List Nat} {next : Nat} {highlights : List Highlight}

theorem skipReason?_eq_none_iff {length : Nat} {highlight : Highlight} :
    skipReason? length highlight = none ↔ highlight.FitsIn length := by
  unfold skipReason? Highlight.FitsIn
  split
  · simp; omega
  · split
    · simp; omega
    · simp; omega

/-- What does not fit is told of, with the reason. -/
theorem reports_of_not_fitsIn {length : Nat} {highlight : Highlight}
    (h : ¬ highlight.FitsIn length) :
    ∃ reason, skipReason? length highlight = some reason ∧
      Skipped.Reports length highlight ⟨highlight.id, highlight.start, highlight.stop, reason⟩ := by
  unfold skipReason?
  by_cases hempty : highlight.stop ≤ highlight.start
  · exact ⟨.empty, if_pos hempty, rfl, rfl, rfl, .inl ⟨hempty, rfl⟩⟩
  · have hstart : highlight.start < highlight.stop := by omega
    have hstop : length < highlight.stop := by
      by_contra hle
      exact h ⟨hstart, by omega⟩
    rw [if_neg hempty, if_pos hstop]
    exact ⟨_, rfl, rfl, rfl, rfl, .inr ⟨hstart, hstop, rfl⟩⟩

/-- The highlights left out are those that do not fit, in order. -/
theorem forall₂_skipped (length : Nat) (highlights : List Highlight) :
    List.Forall₂ (Skipped.Reports length)
      (highlights.filter fun h => ¬ h.FitsIn length) (skipped length highlights) := by
  induction highlights with
  | nil => exact .nil
  | cons highlight highlights ih =>
    rw [skipped, List.filterMap_cons]
    by_cases hfits : highlight.FitsIn length
    · rw [skipReason?_eq_none_iff.mpr hfits, List.filter_cons_of_neg (by simpa using hfits)]
      exact ih
    · obtain ⟨reason, hreason, hreports⟩ := reports_of_not_fitsIn hfits
      rw [hreason, List.filter_cons_of_pos (by simpa using hfits)]
      exact .cons hreports ih

theorem placeFrom_cons_of_fitsIn {highlight : Highlight} (h : highlight.FitsIn units.size) :
    placeFrom units bounds next (highlight :: highlights) =
      place units bounds next highlight :: placeFrom units bounds (next + 1) highlights := by
  rw [placeFrom, skipReason?_eq_none_iff.mpr h]

theorem placeFrom_cons_of_not_fitsIn {highlight : Highlight} (h : ¬ highlight.FitsIn units.size) :
    placeFrom units bounds next (highlight :: highlights) =
      placeFrom units bounds next highlights := by
  obtain ⟨reason, hreason, -⟩ := reports_of_not_fitsIn h
  rw [placeFrom, hreason]

/-- The highlights in place are those that fit, in order. -/
theorem map_highlight_placeFrom :
    (placeFrom units bounds next highlights).map Placed.highlight =
      highlights.filter fun h => h.FitsIn units.size := by
  induction highlights generalizing next with
  | nil => rfl
  | cons highlight highlights ih =>
    by_cases hfits : highlight.FitsIn units.size
    · rw [placeFrom_cons_of_fitsIn hfits, List.filter_cons_of_pos (by simpa using hfits),
        List.map_cons, ih]
      rfl
    · rw [placeFrom_cons_of_not_fitsIn hfits, List.filter_cons_of_neg (by simpa using hfits), ih]

/-- Without those that do not fit, the highlights are placed as with them. -/
theorem placeFrom_filter :
    placeFrom units bounds next (highlights.filter fun h => h.FitsIn units.size) =
      placeFrom units bounds next highlights := by
  induction highlights generalizing next with
  | nil => rfl
  | cons highlight highlights ih =>
    by_cases hfits : highlight.FitsIn units.size
    · rw [List.filter_cons_of_pos (by simpa using hfits), placeFrom_cons_of_fitsIn hfits,
        placeFrom_cons_of_fitsIn hfits, ih]
    · rw [List.filter_cons_of_neg (by simpa using hfits), placeFrom_cons_of_not_fitsIn hfits, ih]

theorem exists_place_of_mem {placed : Placed} (h : placed ∈ placeFrom units bounds next highlights) :
    ∃ index highlight, highlight.FitsIn units.size ∧
      placed = place units bounds index highlight := by
  induction highlights generalizing next with
  | nil => cases h
  | cons highlight highlights ih =>
    by_cases hfits : highlight.FitsIn units.size
    · rw [placeFrom_cons_of_fitsIn hfits] at h
      rcases List.mem_cons.mp h with rfl | h
      · exact ⟨next, highlight, hfits, rfl⟩
      · exact ih h
    · rw [placeFrom_cons_of_not_fitsIn hfits] at h
      exact ih h

theorem widened_place {text : Text} {index : Nat} {highlight : Highlight}
    (h : highlight.FitsIn text.length) :
    (place units (boundaries text) index highlight).Widened text where
  start := isGreatest_floorIn text highlight.start
  stop := isLeast_ceilIn h.2

/-- **Which highlights are placed.**  The highlights in place are those that cover something within
the visible text, in order and numbered from zero.  Each is widened to the nearest boundaries of
clusters around it and still lies within the text.  The others are told of, in order and with the
reason, and what is written and placed is the same without them. -/
theorem inject_fitting (mode : Whitespace) (markup : Text) (highlights : List Highlight) :
    let length := (visibleUnits mode markup).length
    let fitting := highlights.filter fun h => h.FitsIn length
    (inject mode markup highlights).placed.map Placed.highlight = fitting ∧
      List.Forall₂ (Skipped.Reports length) (highlights.filter fun h => ¬ h.FitsIn length)
        (inject mode markup highlights).skipped ∧
      (∀ (i : Nat) (p : Placed), (inject mode markup highlights).placed[i]? = some p →
        p.index = i ∧ p.Widened (visibleText mode markup) ∧ p.start < p.stop ∧
          p.stop ≤ length) ∧
      (inject mode markup fitting).markup = (inject mode markup highlights).markup ∧
      (inject mode markup fitting).placed = (inject mode markup highlights).placed := by
  intro length fitting
  have hsize : (units (pieces mode markup)).toArray.size = length := List.size_toArray
  have htext : (shownText (pieces mode markup)).length = length := by
    rw [← map_char_units, List.length_map]
    rfl
  -- What does not fit is skipped without a number, so leaving it out changes nothing.
  have hplaced : (inject mode markup fitting).placed = (inject mode markup highlights).placed := by
    have hfilter := @placeFrom_filter (units (pieces mode markup)).toArray
      (boundaries (shownText (pieces mode markup))) 0 highlights
    rwa [hsize] at hfilter
  refine ⟨?_, ?_, fun i p hp => ?_, ?_, hplaced⟩
  · have hmap := @map_highlight_placeFrom (units (pieces mode markup)).toArray
      (boundaries (shownText (pieces mode markup))) 0 highlights
    rwa [hsize] at hmap
  · have hskipped := forall₂_skipped length highlights
    rwa [← hsize] at hskipped ⊢
  · have hfits := fits_inject mode markup highlights
    have hmem := List.mem_of_getElem? hp
    obtain ⟨index, highlight, hin, hplace⟩ := exists_place_of_mem hmem
    rw [hsize, ← htext] at hin
    have hwidened : p.Widened (visibleText mode markup) := by
      rw [hplace]
      exact widened_place hin
    refine ⟨hfits.index i p hp, hwidened, (hfits.spans p hmem).1, ?_⟩
    have hlast := mem_boundaries.mpr hwidened.stop.1.1
    exact Nat.le_trans (le_length_of_mem_boundaries hlast) (Nat.le_of_eq htext)
  · change splice (inject mode markup fitting).placed 0 (pieces mode markup) = _
    rw [hplaced]
    rfl

/-- A highlight past the end, an empty one, and one that begins inside a cluster. -/
example :
    let h (start stop : Nat) : Highlight := ⟨"", start, stop, "", "", ⟨19723, 0, 0⟩, [], none⟩
    let injected := inject .collapse "cafe\u0301 au lait".toList [h 90 95, h 3 3, h 4 8]
    injected.placed.map (fun p => (p.index, p.start, p.stop)) = [(0, 3, 8)] ∧
      injected.skipped.map Skipped.reason = [.outOfBounds 13, .empty] := by
  decide +kernel

end Injection

end Marginalia
