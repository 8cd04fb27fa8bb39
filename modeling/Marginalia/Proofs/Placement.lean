import Marginalia.Injection
import Marginalia.Proofs.Region
import Marginalia.Proofs.Unit

/-! # Placement of highlights

Injection writes sentinels between the pieces of a marked-up text.  Reading the result back gives
the text again and, over every visible unit, exactly the highlights that hold a unit from the same
bytes (`ofText_inject`).

The argument goes through the strands of the result: its pieces and marks in order.  The marks at
one byte are grouped by `marksAt`, and the bytes in question are the ends of pieces (`offsets`), in
ascending order.  A mark stands before a piece exactly if its byte is not past the beginning of
that piece, which is a statement about bytes alone; `Fits.touches_iff` turns it into one about
units.
-/
namespace Marginalia

open Text Sentinel Markup
open Token (literals literals_mark literals_text literals_append marks_mark marks_text marks_append)

/-- The byte where the mark of the given kind stands. -/
def Placed.byteOf (placed : Placed) : Kind → Nat
  | .start => placed.startByte
  | .stop => placed.stopByte
  | .anchor => placed.startByte

/-- The highlight covers a unit that comes from the same bytes. -/
def Placed.Touches (placed : Placed) (units : List VisibleUnit) (unit : VisibleUnit) : Prop :=
  ∃ k v, units[k]? = some v ∧ v.SameRange unit ∧ placed.start ≤ k ∧ k < placed.stop

namespace Injection

/-! ### Strands -/

/-- The marks at a byte of the source. -/
def marksAt (placed : List Placed) (byte : Nat) : List (Kind × Nat) :=
  (placed.reverse.filter (·.stopByte = byte)).map (fun p => (.stop, p.index)) ++
    (placed.filter (·.startByte = byte)).flatMap fun p => [(.anchor, p.index), (.start, p.index)]

/-- The token of a mark. -/
def markToken (mark : Kind × Nat) : Token :=
  .mark mark.1 mark.2

/-- Pieces and marks in the order in which injection writes them. -/
def strands (placed : List Placed) (byte : Nat) : List Piece → List Token
  | [] => (marksAt placed byte).map markToken
  | piece :: pieces =>
    (marksAt placed byte).map markToken ++
      .text piece.source :: strands placed (byte + piece.source.byteLength) pieces

/-- The bytes between pieces, the two ends included. -/
def offsets (byte : Nat) : List Piece → List Nat
  | [] => [byte]
  | piece :: pieces => byte :: offsets (byte + piece.source.byteLength) pieces

theorem flatMap_toText_sentinelsAt (placed : List Placed) (byte : Nat) :
    (sentinelsAt placed byte).flatMap Sentinel.toText =
      ((marksAt placed byte).map markToken).flatMap Token.write := by
  have hmap : sentinelsAt placed byte = (marksAt placed byte).map fun m => .ofIndex m.1 m.2 := by
    simp [sentinelsAt, marksAt, List.map_flatMap]
  rw [hmap, List.flatMap_map, List.flatMap_map]
  rfl

theorem splice_eq_write (placed : List Placed) (byte : Nat) (pieces : List Piece) :
    splice placed byte pieces = (strands placed byte pieces).flatMap Token.write := by
  induction pieces generalizing byte with
  | nil => exact flatMap_toText_sentinelsAt placed byte
  | cons piece pieces ih =>
    rw [splice, strands, List.flatMap_append, List.flatMap_cons, ← ih,
      flatMap_toText_sentinelsAt, List.append_assoc]
    rfl

theorem literals_map_markToken (marks : List (Kind × Nat)) :
    literals (marks.map markToken) = [] := by
  induction marks with
  | nil => rfl
  | cons mark marks ih => rw [List.map_cons, markToken, literals_mark, ih]

theorem marks_map_markToken (marks : List (Kind × Nat)) :
    Token.marks (marks.map markToken) = marks := by
  induction marks with
  | nil => rfl
  | cons mark marks ih => rw [List.map_cons, markToken, marks_mark, ih]

theorem literals_strands (placed : List Placed) (byte : Nat) (pieces : List Piece) :
    literals (strands placed byte pieces) = Piece.sources pieces := by
  induction pieces generalizing byte with
  | nil => exact literals_map_markToken _
  | cons piece pieces ih =>
    rw [strands, literals_append, literals_map_markToken, literals_text, ih]
    rfl

theorem marks_strands (placed : List Placed) (byte : Nat) (pieces : List Piece) :
    Token.marks (strands placed byte pieces) = (offsets byte pieces).flatMap (marksAt placed) := by
  induction pieces generalizing byte with
  | nil => simp [strands, offsets, marks_map_markToken]
  | cons piece pieces ih =>
    rw [strands, marks_append, marks_map_markToken, marks_text, ih, offsets, List.flatMap_cons]

/-! ### Offsets -/

theorem le_of_mem_offsets {byte b : Nat} {pieces : List Piece} (h : b ∈ offsets byte pieces) :
    byte ≤ b := by
  induction pieces generalizing byte with
  | nil => exact Nat.le_of_eq (List.mem_singleton.mp h).symm
  | cons piece pieces ih =>
    rcases List.mem_cons.mp h with rfl | h
    · exact Nat.le_refl _
    · exact Nat.le_trans (Nat.le_add_right _ _) (ih h)

theorem pairwise_offsets {byte : Nat} {pieces : List Piece}
    (hpieces : ∀ p ∈ pieces, p.source ≠ []) : (offsets byte pieces).Pairwise (· < ·) := by
  induction pieces generalizing byte with
  | nil => exact List.pairwise_singleton _ _
  | cons piece pieces ih =>
    refine List.pairwise_cons.mpr ⟨fun b hb => ?_, ih fun p hp => hpieces p (.tail _ hp)⟩
    exact Nat.lt_of_lt_of_le
      (Nat.lt_add_of_pos_right (byteLength_pos (hpieces piece List.mem_cons_self)))
      (le_of_mem_offsets hb)

/-- The piece of a unit among the strands: the marks before it are those at the bytes up to its
beginning. -/
theorem strands_of_mem_unitsFrom (placed : List Placed) {byte : Nat} {pieces : List Piece}
    (hpieces : ∀ p ∈ pieces, p.source ≠ []) {unit : VisibleUnit}
    (h : unit ∈ unitsFrom byte pieces) :
    ∃ (before : List Token) (source : Text) (after : List Token) (front back : List Nat),
      strands placed byte pieces = before ++ .text source :: after ∧
      source ≠ [] ∧
      byte + byteLength (literals before) = unit.start ∧
      unit.start + source.byteLength = unit.stop ∧
      Token.marks before = front.flatMap (marksAt placed) ∧
      offsets byte pieces = front ++ back ∧
      (∀ b ∈ front, b ≤ unit.start) ∧ unit.stop ∈ back ∧ ∀ b ∈ back, unit.start < b := by
  induction pieces generalizing byte with
  | nil => simp [unitsFrom] at h
  | cons piece pieces ih =>
    have hne : piece.source ≠ [] := hpieces piece List.mem_cons_self
    -- Before a unit of the first piece there are only the marks at its first byte.
    rcases List.mem_append.mp h with h | h
    · obtain ⟨c, _, rfl⟩ := List.mem_map.mp h
      refine ⟨(marksAt placed byte).map markToken, piece.source, _, [byte], _, rfl, hne, ?_, rfl,
        ?_, rfl, by simp, ?_, fun b hb => ?_⟩
      · rw [literals_map_markToken]
        rfl
      · rw [marks_map_markToken, List.flatMap_cons, List.flatMap_nil, List.append_nil]
      · cases pieces <;> exact List.mem_cons_self
      · exact Nat.lt_of_lt_of_le (Nat.lt_add_of_pos_right (byteLength_pos hne))
          (le_of_mem_offsets hb)
    · obtain ⟨before, source, after, front, back, hs, hsource, hstart, hstop, hmarks, hoff, hfront,
        hback⟩ := ih (fun p hp => hpieces p (.tail _ hp)) h
      refine ⟨(marksAt placed byte).map markToken ++ .text piece.source :: before, source, after,
        byte :: front, back, ?_, hsource, ?_, hstop, ?_, ?_, ?_, hback⟩
      · rw [strands, hs, List.append_assoc, List.cons_append]
      · rw [literals_append, literals_map_markToken, literals_text, List.nil_append,
          byteLength_append]
        omega
      · rw [marks_append, marks_map_markToken, marks_text, hmarks, List.flatMap_cons]
      · rw [offsets, hoff, List.cons_append]
      · intro b hb
        rcases List.mem_cons.mp hb with rfl | hb
        · omega
        · exact hfront b hb

theorem mem_offsets_of_mem_unitsFrom {byte : Nat} {pieces : List Piece}
    (hpieces : ∀ p ∈ pieces, p.source ≠ []) {unit : VisibleUnit}
    (h : unit ∈ unitsFrom byte pieces) :
    unit.start ∈ offsets byte pieces ∧ unit.stop ∈ offsets byte pieces := by
  induction pieces generalizing byte with
  | nil => simp [unitsFrom] at h
  | cons piece pieces ih =>
    rcases List.mem_append.mp h with h | h
    · obtain ⟨c, _, rfl⟩ := List.mem_map.mp h
      refine ⟨List.mem_cons_self, List.mem_cons_of_mem _ ?_⟩
      cases pieces <;> exact List.mem_cons_self
    · have hrest := ih (fun p hp => hpieces p (.tail _ hp)) h
      exact ⟨.tail _ hrest.1, .tail _ hrest.2⟩

/-! ### Highlights in place -/

/-- Highlights have their numbers as indices, cover at least one unit, and their marks stand at
the ends of their first and last unit. -/
structure Fits (units : List VisibleUnit) (placed : List Placed) : Prop where
  index : ∀ (i : Nat) (p : Placed), placed[i]? = some p → p.index = i
  spans : ∀ p ∈ placed, p.start < p.stop ∧ ∃ u v, units[p.start]? = some u ∧
    units[p.stop - 1]? = some v ∧ p.startByte = u.start ∧ p.stopByte = v.stop

theorem length_placeFrom_le (units : Array VisibleUnit) (bounds : List Nat) (next : Nat)
    (highlights : List Highlight) :
    (placeFrom units bounds next highlights).length ≤ highlights.length := by
  induction highlights generalizing next with
  | nil => exact Nat.le_refl _
  | cons highlight highlights ih =>
    rw [placeFrom]
    split
    · exact Nat.le_succ_of_le (ih next)
    · exact Nat.succ_le_succ (ih (next + 1))

theorem index_of_placeFrom {units : Array VisibleUnit} {bounds : List Nat} {next : Nat}
    {highlights : List Highlight} {i : Nat} {p : Placed}
    (h : (placeFrom units bounds next highlights)[i]? = some p) : p.index = next + i := by
  induction highlights generalizing next i with
  | nil => simp [placeFrom] at h
  | cons highlight highlights ih =>
    rw [placeFrom] at h
    split at h
    · exact ih h
    · cases i with
      | zero =>
        rw [List.getElem?_cons_zero, Option.some.injEq] at h
        rw [← h]
        rfl
      | succ i =>
        rw [List.getElem?_cons_succ] at h
        rw [ih h]
        omega

theorem spans_place {units : Array VisibleUnit} {bounds : List Nat} {next : Nat}
    {highlight : Highlight} (hbounds : ∀ b ∈ bounds, b ≤ units.size)
    (h : skipReason? units.size highlight = none) :
    let p := place units bounds next highlight
    p.start < p.stop ∧ ∃ u v, units.toList[p.start]? = some u ∧
      units.toList[p.stop - 1]? = some v ∧ p.startByte = u.start ∧ p.stopByte = v.stop := by
  intro p
  have hfits : highlight.start < highlight.stop ∧ highlight.stop ≤ units.size := by
    unfold skipReason? at h
    split at h
    · cases h
    · split at h
      · cases h
      · omega
  have hstart : p.start ≤ highlight.start := floorIn_le _ _
  have hstop : highlight.stop ≤ p.stop := le_ceilIn _ _
  have hsize : p.stop ≤ units.size := ceilIn_le hbounds hfits.2
  have hfirst : p.start < units.size := by omega
  have hlast : p.stop - 1 < units.size := by omega
  refine ⟨by omega, units[p.start], units[p.stop - 1], ?_, ?_, ?_, ?_⟩
  · rw [Array.getElem?_toList, Array.getElem?_eq_getElem hfirst]
  · rw [Array.getElem?_toList, Array.getElem?_eq_getElem hlast]
  · change (units[p.start]?.map VisibleUnit.start).getD 0 = _
    rw [Array.getElem?_eq_getElem hfirst]
    rfl
  · change (units[p.stop - 1]?.map VisibleUnit.stop).getD 0 = _
    rw [Array.getElem?_eq_getElem hlast]
    rfl

/-- The highlights that injection places fit the units. -/
theorem fits_placeFrom {units : Array VisibleUnit} {bounds : List Nat}
    (hbounds : ∀ b ∈ bounds, b ≤ units.size) (highlights : List Highlight) :
    Fits units.toList (placeFrom units bounds 0 highlights) := by
  refine ⟨fun i p h => by simpa using index_of_placeFrom h, ?_⟩
  have hall : ∀ next, ∀ p ∈ placeFrom units bounds next highlights, p.start < p.stop ∧
      ∃ u v, units.toList[p.start]? = some u ∧ units.toList[p.stop - 1]? = some v ∧
        p.startByte = u.start ∧ p.stopByte = v.stop := by
    induction highlights with
    | nil => simp [placeFrom]
    | cons highlight highlights ih =>
      intro next p hp
      rw [placeFrom] at hp
      split at hp
      · exact ih next p hp
      · next hreason =>
        rcases List.mem_cons.mp hp with rfl | hp
        · exact spans_place hbounds hreason
        · exact ih (next + 1) p hp
  exact hall 0

theorem mem_marksAt {placed : List Placed} {byte i : Nat} {kind : Kind} :
    (kind, i) ∈ marksAt placed byte ↔ ∃ p ∈ placed, p.index = i ∧ p.byteOf kind = byte := by
  rw [marksAt, List.mem_append, List.mem_map, List.mem_flatMap]
  cases kind <;> simp [Placed.byteOf, eq_comm, and_assoc, and_comm, and_left_comm]

namespace Fits

variable {units : List VisibleUnit} {placed : List Placed}

/-- Whether the highlight touches a unit shows in the bytes where its marks stand. -/
theorem touches_iff (h : Fits units placed)
    (hunits : units.Pairwise fun u v => u.stop ≤ v.start ∨ u.SameRange v)
    (hranges : ∀ u ∈ units, u.start < u.stop) {p : Placed} (hp : p ∈ placed) {unit : VisibleUnit}
    (hunit : unit ∈ units) :
    p.Touches units unit ↔ p.startByte ≤ unit.start ∧ unit.start < p.stopByte := by
  obtain ⟨hlt, first, last, hfirst, hlast, hstart, hstop⟩ := h.spans p hp
  have hrange : ∀ {k : Nat} {u : VisibleUnit}, units[k]? = some u → u.start < u.stop :=
    fun hk => hranges _ (List.mem_of_getElem? hk)
  have horder : ∀ {j k : Nat} {u v : VisibleUnit}, units[j]? = some u → units[k]? = some v →
      j < k → u.stop ≤ v.start ∨ u.SameRange v := by
    intro j k u v hj hk hjk
    obtain ⟨hj', rfl⟩ := List.getElem?_eq_some_iff.mp hj
    obtain ⟨hk', rfl⟩ := List.getElem?_eq_some_iff.mp hk
    exact List.pairwise_iff_getElem.mp hunits j k hj' hk' hjk
  rw [hstart, hstop]
  constructor
  · rintro ⟨k, v, hk, ⟨hvstart, hvstop⟩, hlo, hhi⟩
    have hv := hrange hk
    constructor
    · rcases Nat.eq_or_lt_of_le hlo with heq | hlo
      · rw [heq, hk, Option.some.injEq] at hfirst
        rw [← hfirst]
        omega
      · have hf := hrange hfirst
        rcases horder hfirst hk hlo with hle | ⟨hs, -⟩ <;> omega
    · rcases Nat.eq_or_lt_of_le (Nat.le_sub_one_of_lt hhi) with heq | hhi
      · rw [← heq, hk, Option.some.injEq] at hlast
        rw [← hlast]
        omega
      · have hl := hrange hlast
        rcases horder hk hlast hhi with hle | ⟨-, hs⟩ <;> omega
  · rintro ⟨hlo, hhi⟩
    obtain ⟨k, hk⟩ := List.mem_iff_getElem?.mp hunit
    have hu := hrange hk
    -- A unit outside the range of the highlight can only share the bytes of its first or last one.
    by_cases hbefore : k < p.start
    · rcases horder hk hfirst hbefore with hle | ⟨hs, he⟩
      · omega
      · exact ⟨p.start, first, hfirst, ⟨hs.symm, he.symm⟩, Nat.le_refl _, hlt⟩
    · by_cases hafter : p.stop ≤ k
      · rcases horder hlast hk (by omega) with hle | hsame
        · omega
        · exact ⟨p.stop - 1, last, hlast, hsame, by omega, by omega⟩
      · exact ⟨k, unit, hk, ⟨rfl, rfl⟩, by omega, by omega⟩

end Fits

/-! ### The marks as a whole -/

/-- The marks of highlights whose ends lie at the given bytes. -/
structure Aligned (offsets : List Nat) (placed : List Placed) : Prop where
  ascending : offsets.Pairwise (· < ·)
  index : ∀ (i : Nat) (p : Placed), placed[i]? = some p → p.index = i
  range : ∀ p ∈ placed, p.startByte < p.stopByte
  mem : ∀ p ∈ placed, ∀ kind, p.byteOf kind ∈ offsets

namespace Aligned

variable {offsets : List Nat} {placed : List Placed}

theorem mem_marksAt (h : Aligned offsets placed) {byte i : Nat} {kind : Kind} :
    (kind, i) ∈ marksAt placed byte ↔ ∃ p, placed[i]? = some p ∧ p.byteOf kind = byte := by
  rw [Injection.mem_marksAt]
  constructor
  · rintro ⟨p, hp, rfl, hbyte⟩
    obtain ⟨i, hi⟩ := List.mem_iff_getElem?.mp hp
    rw [h.index i p hi]
    exact ⟨p, hi, hbyte⟩
  · rintro ⟨p, hp, hbyte⟩
    exact ⟨p, List.mem_of_getElem? hp, h.index i p hp, hbyte⟩

/-- The marks at some of the bytes. -/
theorem mem_flatMap_marksAt (h : Aligned offsets placed) {front : List Nat} {i : Nat}
    {kind : Kind} : (kind, i) ∈ front.flatMap (marksAt placed) ↔
      ∃ p, placed[i]? = some p ∧ p.byteOf kind ∈ front := by
  rw [List.mem_flatMap]
  constructor
  · rintro ⟨byte, hbyte, hmem⟩
    obtain ⟨p, hp, rfl⟩ := h.mem_marksAt.mp hmem
    exact ⟨p, hp, hbyte⟩
  · rintro ⟨p, hp, hbyte⟩
    exact ⟨_, hbyte, h.mem_marksAt.mpr ⟨p, hp, rfl⟩⟩

theorem mem_marks (h : Aligned offsets placed) {i : Nat} {kind : Kind} :
    (kind, i) ∈ offsets.flatMap (marksAt placed) ↔ i < placed.length := by
  rw [h.mem_flatMap_marksAt]
  constructor
  · rintro ⟨p, hp, -⟩
    exact (List.getElem?_eq_some_iff.mp hp).1
  · intro hi
    exact ⟨placed[i], List.getElem?_eq_getElem hi, h.mem _ (List.getElem_mem hi) kind⟩

theorem nodup_marksAt (h : Aligned offsets placed) (byte : Nat) : (marksAt placed byte).Nodup := by
  have hindex : (placed.map Placed.index).Nodup := by
    rw [List.nodup_iff_getElem?_ne_getElem?]
    intro i j hij hj heq
    rw [List.length_map] at hj
    rw [List.getElem?_map, List.getElem?_map, List.getElem?_eq_getElem hj,
      List.getElem?_eq_getElem (Nat.lt_trans hij hj)] at heq
    have hi := h.index i _ (List.getElem?_eq_getElem (Nat.lt_trans hij hj))
    have hj := h.index j _ (List.getElem?_eq_getElem hj)
    simp only [Option.map_some, Option.some.injEq] at heq
    omega
  rw [List.Nodup, List.pairwise_map] at hindex
  refine List.nodup_append.mpr ⟨?_, ?_, ?_⟩
  · rw [List.Nodup, List.pairwise_map]
    refine List.Pairwise.filter _ (List.pairwise_reverse.mpr (hindex.imp ?_))
    intro p q hpq heq
    exact hpq (Prod.mk.inj heq).2.symm
  · rw [List.nodup_flatMap]
    refine ⟨fun p _ => by simp, (hindex.filter _).imp ?_⟩
    intro p q hpq mark hm hn
    simp only [List.mem_cons, List.not_mem_nil, or_false] at hm hn
    rcases hm with rfl | rfl <;> rcases hn with hn | hn <;> simp_all
  · intro mark hm n hn heq
    obtain ⟨p, _, rfl⟩ := List.mem_map.mp hm
    obtain ⟨q, _, hq⟩ := List.mem_flatMap.mp hn
    rw [← heq] at hq
    simp at hq

/-- No mark comes twice. -/
theorem nodup_marks (h : Aligned offsets placed) :
    (offsets.flatMap (marksAt placed)).Nodup := by
  rw [List.nodup_flatMap]
  refine ⟨fun byte _ => h.nodup_marksAt byte, h.ascending.imp ?_⟩
  intro a b hab mark ha hb
  obtain ⟨p, hp, rfl⟩ := h.mem_marksAt.mp ha
  obtain ⟨q, hq, hbyte⟩ := h.mem_marksAt.mp hb
  rw [hp, Option.some.injEq] at hq
  rw [← hq] at hbyte
  omega

/-- The start of a highlight is marked before its end. -/
theorem start_lt_stop (h : Aligned offsets placed) {i start stop : Nat}
    (hstart : (.start, i) ∈ marksAt placed start) (hstop : (.stop, i) ∈ marksAt placed stop) :
    start < stop := by
  obtain ⟨p, hp, rfl⟩ := h.mem_marksAt.mp hstart
  obtain ⟨q, hq, rfl⟩ := h.mem_marksAt.mp hstop
  obtain rfl := Option.some.inj (hp.symm.trans hq)
  exact h.range p (List.mem_of_getElem? hp)

/-- Starts and ends of highlights that cover something are paired. -/
theorem paired_marks (h : Aligned offsets placed) :
    Token.Paired (offsets.flatMap (marksAt placed)) := by
  refine ⟨fun i => by rw [h.mem_marks, h.mem_marks], ?_⟩
  rw [List.pairwise_flatMap]
  constructor
  · intro byte _
    refine List.pairwise_of_forall_mem_list ?_
    rintro m hm n hn i rfl rfl
    exact Nat.lt_irrefl byte (h.start_lt_stop hn hm)
  · refine h.ascending.imp ?_
    rintro a b hab m hm n hn i rfl rfl
    exact Nat.lt_asymm hab (h.start_lt_stop hn hm)

end Aligned

/-- The marks of highlights that fit units stand between pieces. -/
theorem Fits.aligned {pieces : List Piece} {placed : List Placed}
    (hpieces : ∀ p ∈ pieces, p.source ≠ []) (h : Fits (units pieces) placed) :
    Aligned (offsets 0 pieces) placed := by
  have hmem : ∀ {k : Nat} {u : VisibleUnit}, (units pieces)[k]? = some u →
      u.start ∈ offsets 0 pieces ∧ u.stop ∈ offsets 0 pieces :=
    fun hk => mem_offsets_of_mem_unitsFrom hpieces (List.mem_of_getElem? hk)
  refine ⟨pairwise_offsets hpieces, h.index, fun p hp => ?_, fun p hp kind => ?_⟩
  · obtain ⟨hlt, first, last, hfirst, hlast, hstart, hstop⟩ := h.spans p hp
    have hunit : first ∈ units pieces := List.mem_of_getElem? hfirst
    have htouches : p.Touches (units pieces) first :=
      ⟨p.start, first, hfirst, ⟨rfl, rfl⟩, Nat.le_refl _, hlt⟩
    rw [h.touches_iff (pairwise_unitsFrom 0 pieces)
      (fun u hu => start_lt_stop_of_mem_unitsFrom hpieces hu) hp hunit] at htouches
    omega
  · obtain ⟨-, first, last, hfirst, hlast, hstart, hstop⟩ := h.spans p hp
    cases kind with
    | start =>
      rw [Placed.byteOf, hstart]
      exact (hmem hfirst).1
    | stop =>
      rw [Placed.byteOf, hstop]
      exact (hmem hlast).2
    | anchor =>
      rw [Placed.byteOf, hstart]
      exact (hmem hfirst).1

/-- The anchor of a highlight stands right before its start. -/
theorem anchor_start_of_marksAt {placed : List Placed} {p : Placed} (hp : p ∈ placed) :
    ∃ front back, marksAt placed p.startByte =
      front ++ (.anchor, p.index) :: (.start, p.index) :: back := by
  have hmem : p ∈ placed.filter (·.startByte = p.startByte) := by simpa using hp
  obtain ⟨before, after, hsplit⟩ := List.append_of_mem hmem
  rw [marksAt, hsplit, List.flatMap_append, List.flatMap_cons, ← List.append_assoc]
  exact ⟨_, _, rfl⟩

theorem strands_of_mem_offsets {placed : List Placed} {byte b : Nat} {pieces : List Piece}
    (h : b ∈ offsets byte pieces) :
    ∃ front back, strands placed byte pieces =
      front ++ ((marksAt placed b).map markToken ++ back) := by
  induction pieces generalizing byte with
  | nil =>
    rw [List.mem_singleton.mp h, strands]
    exact ⟨[], [], by simp⟩
  | cons piece pieces ih =>
    rcases List.mem_cons.mp h with rfl | h
    · exact ⟨[], _, rfl⟩
    · obtain ⟨front, back, hs⟩ := ih h
      refine ⟨(marksAt placed byte).map markToken ++ .text piece.source :: front, back, ?_⟩
      rw [strands, hs, List.append_assoc, List.cons_append]

/-- The anchor of each highlight stands right before its start among the strands. -/
theorem Aligned.anchor_start {pieces : List Piece} {placed : List Placed}
    (h : Aligned (offsets 0 pieces) placed) {i : Nat} (hi : i < placed.length) :
    ∃ front back, strands placed 0 pieces =
      front ++ .mark .anchor i :: .mark .start i :: back := by
  have hget := List.getElem?_eq_getElem hi
  have hmem := List.getElem_mem hi
  obtain ⟨marksBefore, marksAfter, hmarks⟩ := anchor_start_of_marksAt hmem
  obtain ⟨front, back, hs⟩ := @strands_of_mem_offsets placed 0 _ pieces (h.mem _ hmem .start)
  rw [h.index i _ hget] at hmarks
  rw [hs, Placed.byteOf, hmarks]
  refine ⟨front ++ marksBefore.map markToken, marksAfter.map markToken ++ back, ?_⟩
  simp [markToken]

/-! ### Reading the injected text -/

section read

variable {pieces : List Piece} {placed : List Placed}

theorem Aligned.mem_marks_strands (h : Aligned (offsets 0 pieces) placed) {i : Nat} {kind : Kind} :
    (kind, i) ∈ Token.marks (strands placed 0 pieces) ↔ i < placed.length := by
  rw [marks_strands, h.mem_marks]

theorem Aligned.ofText_strands (h : Aligned (offsets 0 pieces) placed)
    (hclean : Clean (Piece.sources pieces)) (hfew : placed.length ≤ indexBound) :
    Token.ofText ((strands placed 0 pieces).flatMap Token.write) =
      .ok (Token.weave false [] (strands placed 0 pieces)) := by
  refine Token.ofText_write ?_ (fun kind i hmem => ?_) ?_ ?_
  · rw [literals_strands]
    exact hclean
  · exact Nat.lt_of_lt_of_le (h.mem_marks_strands.mp hmem) hfew
  · rw [marks_strands]
    exact h.nodup_marks
  · rw [marks_strands]
    exact h.paired_marks

theorem Aligned.checkRoundTrip_strands (h : Aligned (offsets 0 pieces) placed) :
    Token.checkRoundTrip (Token.weave false [] (strands placed 0 pieces)) placed.length =
      .ok () := by
  refine Token.checkRoundTrip_eq_ok (fun kind i hmem => ?_) (fun i hi kind => ?_)
  · rw [Token.marks_weave] at hmem
    exact h.mem_marks_strands.mp hmem
  · rw [Token.marks_weave]
    exact h.mem_marks_strands.mpr hi

/-- Only an empty literal stands between an anchor and its start. -/
theorem Aligned.start_after_anchor (h : Aligned (offsets 0 pieces) placed) {front : List Token}
    {i : Nat} {back : List Token}
    (heq : Token.weave false [] (strands placed 0 pieces) = front ++ .mark .anchor i :: back) :
    ∃ rest, back = .text [] :: .mark .start i :: rest := by
  have hnodup : (Token.marks (Token.weave false [] (strands placed 0 pieces))).Nodup := by
    rw [Token.marks_weave, marks_strands]
    exact h.nodup_marks
  have hi : i < placed.length := by
    rw [← @Aligned.mem_marks_strands _ _ h i .anchor, ← Token.marks_weave false [], heq]
    simp
  obtain ⟨before, after, hs⟩ := h.anchor_start hi
  obtain ⟨woven, hwoven⟩ := Token.weave_mark false [] before .anchor i (.mark .start i :: after)
  rw [← hs, heq] at hwoven
  rw [heq] at hnodup
  exact ⟨_, Token.append_mark_inj hnodup hwoven⟩

/-- The highlights open at the beginning of a unit are those that touch it. -/
theorem mem_openAfter_iff (hpieces : ∀ p ∈ pieces, p.source ≠ [])
    (hfits : Fits (units pieces) placed)
    {unit : VisibleUnit} (hunit : unit ∈ units pieces) {front back : List Nat}
    (hoffsets : offsets 0 pieces = front ++ back) (hfront : ∀ b ∈ front, b ≤ unit.start)
    (hback : ∀ b ∈ back, unit.start < b) (i : Nat) :
    i ∈ IndexSet.empty.openAfter (front.flatMap (marksAt placed)) ↔
      ∃ p, placed[i]? = some p ∧ p.Touches (units pieces) unit := by
  have haligned := hfits.aligned hpieces
  -- Each mark is at one of the offsets, which the beginning of the unit splits in two.
  have hbytes : ∀ p ∈ placed, ∀ kind, p.byteOf kind ∈ front ↔ p.byteOf kind ≤ unit.start := by
    intro p hp kind
    have hmem := haligned.mem p hp kind
    rw [hoffsets, List.mem_append] at hmem
    constructor
    · exact hfront _
    · intro hle
      rcases hmem with hmem | hmem
      · exact hmem
      · exact absurd (hback _ hmem) (Nat.not_lt.mpr hle)
  have hpaired := haligned.paired_marks
  rw [hoffsets, List.flatMap_append] at hpaired
  rw [IndexSet.mem_openAfter hpaired, haligned.mem_flatMap_marksAt,
    haligned.mem_flatMap_marksAt]
  have htouches : ∀ p ∈ placed, p.Touches (units pieces) unit ↔
      p.byteOf .start ∈ front ∧ p.byteOf .stop ∉ front := by
    intro p hp
    rw [hfits.touches_iff (pairwise_unitsFrom 0 pieces)
      (fun u hu => start_lt_stop_of_mem_unitsFrom hpieces hu) hp hunit, hbytes p hp,
      hbytes p hp, Nat.not_le]
    rfl
  constructor
  · rintro ⟨⟨p, hp, hstart⟩, hstop⟩
    have hmem := List.mem_of_getElem? hp
    exact ⟨p, hp, (htouches p hmem).mpr ⟨hstart, fun h => hstop ⟨p, hp, h⟩⟩⟩
  · rintro ⟨p, hp, h⟩
    obtain ⟨hstart, hstop⟩ := (htouches p (List.mem_of_getElem? hp)).mp h
    refine ⟨⟨p, hp, hstart⟩, ?_⟩
    rintro ⟨q, hq, hmem⟩
    rw [hp, Option.some.injEq] at hq
    exact hstop (hq ▸ hmem)

/-- The region over a visible unit of the injected text. -/
theorem exists_covers (hpieces : ∀ p ∈ pieces, p.source ≠ []) (hfits : Fits (units pieces) placed)
    {unit : VisibleUnit} (hunit : unit ∈ units pieces) :
    ∃ number region,
      Region.Covers (Region.ofTokens (Token.weave false [] (strands placed 0 pieces))) number
        unit.start unit.stop region ∧
      ∀ i, i ∈ region.active ↔ ∃ p, placed[i]? = some p ∧ p.Touches (units pieces) unit := by
  obtain ⟨before, source, after, front, back, hs, hsource, hstart, hstop, hmarks, hoffsets,
    hfront, -, hback⟩ := strands_of_mem_unitsFrom placed hpieces hunit
  obtain ⟨wovenBefore, left, right, wovenAfter, hwoven, hwovenMarks, hleft⟩ :=
    Token.weave_piece false [] before hsource after
  obtain ⟨number, region, hcovers, hactive⟩ :=
    Region.ofTokens_covers wovenBefore left source right wovenAfter
  rw [← hwoven, ← hs, hleft, List.nil_append] at hcovers
  have hunitStart : byteLength (literals before) = unit.start := by omega
  rw [hunitStart, hstop] at hcovers
  refine ⟨number, region, hcovers, fun i => ?_⟩
  rw [hactive, hwovenMarks, hmarks]
  exact mem_openAfter_iff hpieces hfits hunit hoffsets hfront hback i

end read

/-- The highlights that injection places fit the text. -/
theorem fits_inject (mode : Whitespace) (markup : Text) (highlights : List Highlight) :
    Fits (visibleUnits mode markup) (inject mode markup highlights).placed := by
  have hbounds : ∀ b ∈ boundaries (shownText (pieces mode markup)),
      b ≤ (units (pieces mode markup)).toArray.size := by
    intro b hb
    have hle := le_length_of_mem_boundaries hb
    rwa [← map_char_units, List.length_map] at hle
  exact fits_placeFrom hbounds highlights

theorem length_inject_le (mode : Whitespace) (markup : Text) (highlights : List Highlight) :
    (inject mode markup highlights).placed.length ≤ highlights.length :=
  length_placeFrom_le _ _ _ _

/-- **Placement.**  Reading back what injection writes into a clean text gives the text, with all
marks of the highlights it placed.  Each visible unit lies in one region, whose highlights are
those that touch the unit, and each anchor stands right before its start. -/
theorem ofText_inject (mode : Whitespace) {markup : Text} (hclean : Clean markup)
    {highlights : List Highlight} (hfew : highlights.length < indexBound) :
    ∃ tokens, Token.ofText (inject mode markup highlights).markup = .ok tokens ∧
      Token.checkRoundTrip tokens (inject mode markup highlights).placed.length = .ok () ∧
      literals tokens = markup ∧
      (∀ unit ∈ visibleUnits mode markup, ∃ number region,
        Region.Covers (Region.ofTokens tokens) number unit.start unit.stop region ∧
        (∀ other r, Region.Covers (Region.ofTokens tokens) other unit.start unit.stop r →
          other = number) ∧
        ∀ i, i ∈ region.active ↔ ∃ p, (inject mode markup highlights).placed[i]? = some p ∧
          p.Touches (visibleUnits mode markup) unit) ∧
      ∀ front i back, tokens = front ++ .mark .anchor i :: back →
        ∃ rest, back = .text [] :: .mark .start i :: rest := by
  have hpieces : ∀ p ∈ pieces mode markup, p.source ≠ [] :=
    fun p hp => source_ne_nil_of_mem_pieces hp
  have hsources := sources_pieces mode markup
  have hfits := fits_inject mode markup highlights
  have haligned := hfits.aligned hpieces
  have hlength := length_inject_le mode markup highlights
  have hmarkup : (inject mode markup highlights).markup =
      (strands (inject mode markup highlights).placed 0 (pieces mode markup)).flatMap
        Token.write :=
    splice_eq_write _ 0 _
  refine ⟨_, hmarkup ▸ haligned.ofText_strands (hsources.symm ▸ hclean) (by omega),
    haligned.checkRoundTrip_strands, ?_, fun unit hunit => ?_, fun front i back heq =>
    haligned.start_after_anchor heq⟩
  · rw [Token.literals_weave, literals_strands, hsources]
    rfl
  · obtain ⟨number, region, hcovers, hactive⟩ := exists_covers hpieces hfits hunit
    exact ⟨number, region, hcovers, fun other r h =>
      Region.Covers.unique (start_lt_stop_of_mem_unitsFrom hpieces hunit) h hcovers, hactive⟩

/-- Two highlights that meet inside a reference that shows two characters. -/
theorem ofText_inject_reference :
    let markup := "a&nvlt;b".toList
    let highlights : List Highlight :=
      [⟨"first", 0, 2, "", "", ⟨19723, 0, 0⟩, [], none⟩,
        ⟨"second", 2, 4, "", "", ⟨19723, 0, 0⟩, [], none⟩]
    Clean markup ∧ highlights.length < indexBound ∧
      ∃ tokens, Token.ofText (inject .collapse markup highlights).markup = .ok tokens ∧
        Token.checkRoundTrip tokens (inject .collapse markup highlights).placed.length = .ok () ∧
        literals tokens = markup := by
  intro markup highlights
  have hclean : Clean markup := by
    intro kind
    cases kind <;> decide
  have hfew : highlights.length < indexBound := by decide
  obtain ⟨tokens, hread, hcheck, hliterals, -⟩ := ofText_inject .collapse hclean hfew
  exact ⟨hclean, hfew, tokens, hread, hcheck, hliterals⟩

end Injection

end Marginalia
