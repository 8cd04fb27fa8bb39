import Marginalia.Proofs.Offset.Slice
import Marginalia.Proofs.Segment

/-! # Pieces between positions

The segments of a region as they come about by positions: pieces of its text, the last first, to
which another piece is joined or put in front (`push`).  What has been read since the last markup
waits until markup follows or the text ends.

Pieces `Tile` a front of the text: each begins where the one before it ends, and between its
positions stands the text of a segment.  So all of them can be cut out of the text
(`slices_of_tiles`), and the white space at their edges, too (`trimmed_position`).  What `push` does
to pieces `join` does to segments; from the front to the back this gives the same segments as
`merge`, which joins them from the back to the front (`reverse_foldl_join`).
-/
namespace Marginalia

open Text

namespace Segment

variable {segments later parts : List Segment} {kind : Kind}

/-! ### Joining from the front -/

/-- The segments, the last first, with one more behind the last, joined to it if their kinds agree.
-/
def join (segments : List Segment) (segment : Segment) : List Segment :=
  if segment.text.isEmpty then segments
  else
    match segments with
    | [] => [segment]
    | last :: older =>
      if last.kind = segment.kind then ⟨segment.kind, last.text ++ segment.text⟩ :: older
      else segment :: last :: older

/-- A segment behind others is left out as it is empty, joined to the last of them, or kept. -/
theorem join_cases (segments : List Segment) (segment : Segment) :
    (segment.text = [] ∧ join segments segment = segments) ∨
    (segment.text ≠ [] ∧ ∃ last older, segments = last :: older ∧ last.kind = segment.kind ∧
      join segments segment = ⟨segment.kind, last.text ++ segment.text⟩ :: older) ∨
    (segment.text ≠ [] ∧ Apart segment.kind segments ∧
      join segments segment = segment :: segments) := by
  unfold join
  by_cases hempty : segment.text.isEmpty = true
  · exact .inl ⟨List.isEmpty_iff.mp hempty, if_pos hempty⟩
  have hne : segment.text ≠ [] := fun heq => hempty (List.isEmpty_iff.mpr heq)
  rw [if_neg hempty]
  cases segments with
  | nil => exact .inr (.inr ⟨hne, by simp [Apart], rfl⟩)
  | cons last older =>
    by_cases hkind : last.kind = segment.kind
    · exact .inr (.inl ⟨hne, last, older, rfl, hkind, if_pos hkind⟩)
    · exact .inr (.inr ⟨hne, by simpa [Apart] using hkind, if_neg hkind⟩)

/-- Segments, the last first, in front of later ones. -/
def before (segments later : List Segment) : List Segment :=
  segments.foldl (fun later segment => cons segment later) later

/-- A segment may as well be put in front of what is later. -/
theorem before_join (segments : List Segment) (segment : Segment) (later : List Segment) :
    before (join segments segment) later = before segments (cons segment later) := by
  rcases join_cases segments segment with ⟨hnil, heq⟩ | ⟨-, last, older, rfl, hkind, heq⟩ |
    ⟨-, -, heq⟩
  · have hcons : cons segment later = later := by
      unfold cons
      exact if_pos (List.isEmpty_iff.mpr hnil)
    rw [heq, hcons]
  · obtain ⟨kind, text⟩ := segment
    obtain ⟨kind', text'⟩ := last
    obtain rfl : kind' = kind := hkind
    rw [heq]
    exact congrArg (before older) (cons_cons kind' text' text later).symm
  · rw [heq]
    rfl

theorem before_foldl_join (parts segments later : List Segment) :
    before (parts.foldl join segments) later = before segments (parts.foldr cons later) := by
  induction parts generalizing segments with
  | nil => rfl
  | cons part parts ih => rw [List.foldl_cons, List.foldr_cons, ih, before_join]

/-- Segments that are not empty and differ in kind from their neighbours. -/
structure Joined (segments : List Segment) : Prop where
  alternating : Alternating segments
  ne_nil : ∀ segment ∈ segments, segment.text ≠ []

theorem joined_nil : Joined [] :=
  ⟨trivial, fun _ h => absurd h List.not_mem_nil⟩

theorem Joined.join (h : Joined segments) (segment : Segment) : Joined (join segments segment) := by
  rcases join_cases segments segment with
    ⟨-, heq⟩ | ⟨hne, last, older, rfl, hkind, heq⟩ | ⟨hne, hapart, heq⟩ <;> rw [heq]
  · exact h
  · obtain ⟨-, holder⟩ := List.forall_mem_cons.mp h.ne_nil
    exact ⟨⟨hkind ▸ h.alternating.1, h.alternating.2⟩,
      List.forall_mem_cons.mpr ⟨List.append_ne_nil_of_right_ne_nil _ hne, holder⟩⟩
  · exact ⟨⟨hapart, h.alternating⟩, List.forall_mem_cons.mpr ⟨hne, h.ne_nil⟩⟩

theorem joined_foldl_join (h : Joined segments) (parts : List Segment) :
    Joined (parts.foldl Segment.join segments) := by
  induction parts generalizing segments with
  | nil => exact h
  | cons part parts ih => exact ih (h.join part)

/-- Segments in front of one of another kind stay as they are. -/
theorem before_of_joined (h : Joined segments)
    (hapart : ∀ last ∈ segments.head?, Apart last.kind later) :
    before segments later = segments.reverse ++ later := by
  induction segments generalizing later with
  | nil => rfl
  | cons last older ih =>
    obtain ⟨hne, holder⟩ := List.forall_mem_cons.mp h.ne_nil
    have hkept : cons last later = last :: later := by
      rcases cons_cases last later with ⟨hnil, -⟩ | ⟨-, next, rest, rfl, hkind, -⟩ | ⟨-, -, heq⟩
      · exact absurd hnil hne
      · exact absurd hkind (hapart last rfl next rfl)
      · exact heq
    have hbehind : ∀ earlier ∈ older.head?, Apart earlier.kind (last :: later) := by
      rintro earlier hearlier next hnext
      obtain rfl := Option.some.inj hnext
      exact (h.alternating.1 earlier hearlier).symm
    calc before (last :: older) later
        = before older (last :: later) := congrArg (before older) hkept
      _ = older.reverse ++ last :: later := ih ⟨h.alternating.2, holder⟩ hbehind
      _ = (last :: older).reverse ++ later := by rw [List.reverse_cons, List.append_assoc]; rfl

/-- **Joining from the front and from the back gives the same segments.** -/
theorem reverse_foldl_join (parts : List Segment) :
    (parts.foldl join []).reverse = merge parts := by
  have hjoined := joined_foldl_join joined_nil parts
  have hbefore : before (parts.foldl join []) [] = (parts.foldl join []).reverse ++ [] :=
    before_of_joined hjoined fun last _ => by simp [Apart]
  rw [List.append_nil] at hbefore
  rw [← hbefore, before_foldl_join]
  rfl

/-- Two parts of one kind behind segments are one part. -/
theorem join_join (segments : List Segment) (kind : Kind) (front text : Text) :
    join (join segments ⟨kind, front⟩) ⟨kind, text⟩ = join segments ⟨kind, front ++ text⟩ := by
  unfold join
  cases front with
  | nil => rfl
  | cons c front =>
    cases text with
    | nil => rw [List.append_nil]; rfl
    | cons d text =>
      cases segments with
      | nil => simp
      | cons last older => by_cases hkind : last.kind = kind <;> simp [hkind]

end Segment

namespace Offset

open Segment

/-! ### Pieces -/

/-- A part of a text between two positions, and its kind. -/
structure Piece where
  kind : Segment.Kind
  start : Nat
  stop : Nat
  deriving DecidableEq, Repr

/-- The pieces, the last first, with one more, which is left out if it is empty and joined to the
last if their kinds agree and they touch. -/
def push (pieces : List Piece) (piece : Piece) : List Piece :=
  if piece.stop ≤ piece.start then pieces
  else
    match pieces with
    | [] => [piece]
    | last :: older =>
      if last.kind = piece.kind ∧ last.stop = piece.start then
        { last with stop := piece.stop } :: older
      else piece :: last :: older

variable {text rest : Text} {pieces : List Piece} {segments parts : List Segment}

/-- The piece of a text at which the part stands in front of the rest. -/
def pieceOf (text : Text) (part : Segment) (rest : Text) : Piece :=
  ⟨part.kind, position text (part.text ++ rest), position text rest⟩

/-- The pieces, the last first, are the segments in front of the rest of a text. -/
inductive Tiles (text : Text) : List Piece → List Segment → Text → Prop
  | nil : Tiles text [] [] text
  | cons {pieces : List Piece} {segments : List Segment} {segment : Segment} {rest : Text}
      (h : Tiles text pieces segments (segment.text ++ rest)) :
      Tiles text (pieceOf text segment rest :: pieces) (segment :: segments) rest

theorem Tiles.suffix (h : Tiles text pieces segments rest) : rest <:+ text := by
  induction h with
  | nil => exact List.suffix_refl _
  | cons _ ih => exact (List.suffix_append _ _).trans ih

theorem stop_le_start_iff {part : Segment} (h : part.text ++ rest <:+ text) :
    (pieceOf text part rest).stop ≤ (pieceOf text part rest).start ↔ part.text = [] := by
  have hstop : (pieceOf text part rest).stop =
      (pieceOf text part rest).start + part.text.byteLength := position_of_append h
  rw [hstop]
  constructor
  · intro hle
    cases htext : part.text with
    | nil => rfl
    | cons c word =>
      have hpos := byteLength_pos (List.cons_ne_nil c word)
      rw [htext] at hle
      omega
  · intro hnil
    rw [hnil]
    exact Nat.le_refl _

/-- **Pieces stay in place** when the next part of the text is joined to them. -/
theorem Tiles.push (part : Segment) (h : Tiles text pieces segments (part.text ++ rest)) :
    Tiles text (push pieces (pieceOf text part rest)) (join segments part) rest := by
  have hempty := stop_le_start_iff h.suffix
  rcases join_cases segments part with ⟨hnil, heq⟩ | ⟨hne, last, older, rfl, hkind, heq⟩ |
    ⟨hne, hapart, heq⟩ <;> rw [heq] <;> unfold Offset.push
  · rw [if_pos (hempty.mpr hnil)]
    rwa [hnil] at h
  · rw [if_neg fun hle => hne (hempty.mp hle)]
    cases h with
    | cons h =>
      have htouch : (pieceOf text last (part.text ++ rest)).kind = (pieceOf text part rest).kind ∧
          (pieceOf text last (part.text ++ rest)).stop = (pieceOf text part rest).start :=
        ⟨hkind, rfl⟩
      rw [← List.append_assoc] at h
      have hjoined : Tiles text (pieceOf text ⟨part.kind, last.text ++ part.text⟩ rest :: _)
          (⟨part.kind, last.text ++ part.text⟩ :: older) rest := .cons h
      dsimp only
      rw [if_pos htouch]
      simpa only [pieceOf, List.append_assoc, hkind] using hjoined
  · rw [if_neg fun hle => hne (hempty.mp hle)]
    cases h with
    | nil => exact .cons .nil
    | cons h =>
      rename_i last
      have htouch : ¬ last.kind = part.kind := hapart last rfl
      dsimp only
      rw [if_neg fun h => htouch h.1]
      exact .cons (.cons h)

/-! ### The parts of a piece -/

/-- The pieces of a text at which the parts stand in front of the rest. -/
def piecesOf (text : Text) (parts : List Segment) (rest : Text) : List Piece :=
  match parts with
  | [] => []
  | part :: parts => pieceOf text part (texts parts ++ rest) :: piecesOf text parts rest

theorem Tiles.foldl_push (h : Tiles text pieces segments (texts parts ++ rest)) :
    Tiles text ((piecesOf text parts rest).foldl Offset.push pieces) (parts.foldl join segments)
      rest := by
  induction parts generalizing pieces segments with
  | nil => exact h
  | cons part parts ih =>
    rw [texts_cons, List.append_assoc] at h
    exact ih h.push

/-- The text between the positions of a piece, as a segment. -/
def cutOut (text : Text) (piece : Piece) : Checked Segment := do
  return ⟨piece.kind, ← slice text piece.start piece.stop⟩

/-- All pieces can be cut out of the text. -/
theorem slices_of_tiles (h : Tiles text pieces segments rest) :
    pieces.reverse.mapM (cutOut text) = .ok segments.reverse := by
  induction h with
  | nil => rfl
  | @cons pieces segments segment rest h ih =>
    have hcut : cutOut text (pieceOf text segment rest) = .ok segment := by
      rw [cutOut, pieceOf, slice_position h.suffix]
      rfl
    rw [List.reverse_cons, List.reverse_cons, List.mapM_append, ih, ok_bind, List.mapM_cons, hcut]
    rfl

/-- The pieces of running text between two positions whose edges are set apart. -/
def trimmed (text : Text) (kind : Segment.Kind) (start stop : Nat) : Checked (List Piece) := do
  if kind = .markup then return [⟨kind, start, stop⟩]
  else
    let content ← slice text start stop
    if (trim content).isEmpty then return [⟨edgeKind content kind, start, stop⟩]
    else
      let lead ← sub content.byteLength (trimStart content).byteLength
      let trail ← sub content.byteLength (trimEnd content).byteLength
      let bodyStop ← sub stop trail
      let head ← slice text start (start + lead)
      let tail ← slice text bodyStop stop
      return [⟨edgeKind head kind, start, start + lead⟩, ⟨kind, start + lead, bodyStop⟩,
        ⟨edgeKind tail kind, bodyStop, stop⟩]

/-- The white space at the end is the same whether or not that at the front is taken away. -/
theorem trailingBlank_trimStart (hne : trim text ≠ []) :
    trailingBlank (trimStart text) = trailingBlank text := by
  have htrail : ∀ c ∈ (trailingBlank (trimStart text)).reverse, isBlank c = true := by
    intro c hc
    rw [trailingBlank, List.reverse_reverse] at hc
    exact List.all_eq_true.mp List.all_takeWhile c hc
  have hstops : Stops isBlank ((trim text).reverse ++ (leadingBlank text).reverse) :=
    stops_append_of_ne_nil (fun hnil => hne (List.reverse_eq_nil_iff.mp hnil))
      (stops_reverse_trim text) _
  have hsplit : text.reverse = (trailingBlank (trimStart text)).reverse ++
      ((trim text).reverse ++ (leadingBlank text).reverse) := by
    conv => lhs; rw [← leadingBlank_append_trimStart text,
      ← trimEnd_append_trailingBlank (trimStart text)]
    rw [← trim, List.reverse_append, List.reverse_append, List.append_assoc]
  have htake := (takeWhile_append_stop htrail hstops).1
  rw [← hsplit] at htake
  conv => rhs; rw [trailingBlank, htake, List.reverse_reverse]

theorem trimmed_position (kind : Segment.Kind) {content : Text} (h : content ++ rest <:+ text) :
    trimmed text kind (position text (content ++ rest)) (position text rest) =
      .ok (piecesOf text (trimEdges ⟨kind, content⟩) rest) := by
  rw [trimmed, trimEdges]
  dsimp only
  by_cases hkind : kind = .markup
  · rw [if_pos hkind, if_pos hkind]
    rfl
  rw [if_neg hkind, if_neg hkind, slice_position h, ok_bind]
  by_cases hempty : (trim content).isEmpty = true
  · rw [if_pos hempty, if_pos hempty]
    rfl
  have hne : trim content ≠ [] := fun hnil => hempty (List.isEmpty_iff.mpr hnil)
  have hlead : sub content.byteLength (trimStart content).byteLength =
      .ok (leadingBlank content).byteLength := by
    have hlength := congrArg byteLength (leadingBlank_append_trimStart content)
    rw [byteLength_append] at hlength
    rw [← hlength, sub_add_right]
  have htrail : sub content.byteLength (trimEnd content).byteLength =
      .ok (trailingBlank (trimStart content)).byteLength := by
    have hlength := congrArg byteLength (trimEnd_append_trailingBlank content)
    rw [byteLength_append] at hlength
    rw [← hlength, sub_add_left, trailingBlank_trimStart hne]
  rw [if_neg hempty, if_neg hempty, hlead, ok_bind, htrail, ok_bind]
  generalize hl : leadingBlank content = lead
  generalize hb : trim content = body
  generalize ht : trailingBlank (trimStart content) = trail
  have hsplit : content ++ rest = lead ++ (body ++ (trail ++ rest)) := by
    rw [← List.append_assoc body, ← hb, ← ht, trim, trimEnd_append_trailingBlank, ← hl,
      ← List.append_assoc, leadingBlank_append_trimStart]
  rw [hsplit] at h ⊢
  have hbody : body ++ (trail ++ rest) <:+ text := (List.suffix_append _ _).trans h
  have hback : trail ++ rest <:+ text := (List.suffix_append _ _).trans hbody
  have hstop : sub (position text rest) trail.byteLength = .ok (position text (trail ++ rest)) := by
    rw [position_of_append hback, sub_add_right]
  rw [hstop, ok_bind, ← position_of_append h, slice_position h, ok_bind, slice_position hback,
    ok_bind]
  simp [piecesOf, pieceOf, texts]

/-- The pieces, the last first, of pieces that have been trimmed. -/
def trimmedPieces (text : Text) (pieces : List Piece) : Checked (List Piece) :=
  pieces.reverse.foldlM (fun merged piece => do
    return (← trimmed text piece.kind piece.start piece.stop).foldl push merged) []

/-- Trimmed pieces stand where the pieces stood. -/
theorem tiles_trimmedPieces (h : Tiles text pieces segments rest) :
    ∃ merged, trimmedPieces text pieces = .ok merged ∧
      Tiles text merged ((segments.reverse.flatMap trimEdges).foldl join []) rest := by
  induction h with
  | nil => exact ⟨[], rfl, .nil⟩
  | @cons pieces segments segment rest h ih =>
    obtain ⟨merged, hmerged, htiles⟩ := ih
    refine ⟨(piecesOf text segment.trimEdges rest).foldl push merged, ?_, ?_⟩
    · rw [trimmedPieces, List.reverse_cons, List.foldlM_append, ← trimmedPieces, hmerged, ok_bind,
        List.foldlM_cons]
      dsimp only [pieceOf]
      rw [trimmed_position segment.kind h.suffix]
      rfl
    · rw [List.reverse_cons, List.flatMap_append, List.foldl_append, List.flatMap_singleton]
      refine Tiles.foldl_push ?_
      rwa [texts_trimEdges]

end Offset

end Marginalia
