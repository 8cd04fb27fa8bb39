import Marginalia.Injection
import Marginalia.Note
import Marginalia.Region
import Marginalia.Segment
import Marginalia.Wrapper

/-! # Rendering

A region is rendered as the notes of its anchors and then its segments: running text that is
highlighted stands in wrappers, everything else stays as it is.  The rendered text is kept in
pieces that tell these apart; `Piece.toText` writes them.

The state of the segmenter runs through the regions of one text in order.
-/
namespace Marginalia

open Text

/-- The highlights in place and the styles of their tags. -/
structure Rendering where
  placed : Array Placed
  styles : StyleTable

namespace Rendering

/-- A piece of rendered text. -/
inductive Piece where
  /-- The margin note of the highlight with the given index. -/
  | note (index : Nat) (text : Text)
  /-- Highlighted running text; shielded text gets braces around its wrappers. -/
  | wrapped (layers : Layers) (isShielded : Bool) (text : Text)
  /-- Text that stays as it is. -/
  | verbatim (text : Text)
  deriving DecidableEq, Repr

namespace Piece

/-- The piece as it is written. -/
def toText : Piece → Text
  | note _ text => text
  | wrapped layers isShielded text =>
    if isShielded then '\x7b' :: (layers.wrap text ++ ['\x7d']) else layers.wrap text
  | verbatim text => text

/-- The part of the region's text in the piece. -/
def literal : Piece → Text
  | note _ _ => []
  | wrapped _ _ text => text
  | verbatim text => text

end Piece

/-- The highlight with an index and the style of its tag. -/
def find? (rendering : Rendering) (index : Nat) : Option (Highlight × TagStyle) := do
  let placed ← rendering.placed[index]?
  let style ← rendering.styles.find? placed.highlight.tag
  return (placed.highlight, style)

/-- The layers for a set of highlights: the one with the lower index is outside, and three or
more share one style. -/
def layers? (rendering : Rendering) (active : IndexSet) : Option Layers :=
  if 3 ≤ active.size then some .many
  else
    match active.toList.filterMap fun index => (rendering.find? index).map Prod.snd with
    | [] => none
    | [only] => some (.one only)
    | outer :: inner :: _ => some (.two outer inner)

/-- The notes of anchors. -/
def notes (rendering : Rendering) (anchors : List Nat) : List Piece :=
  anchors.filterMap fun index =>
    (rendering.find? index).map fun (highlight, style) => .note index (Note.toText highlight style)

/-- A segment with the layers around it. -/
def segmentPiece (layers? : Option Layers) (segment : Segment) : Piece :=
  match segment.kind, layers? with
  | .plain, some layers => .wrapped layers false segment.text
  | .shielded, some layers => .wrapped layers true segment.text
  | _, _ => .verbatim segment.text

/-- The pieces of the next region, and what it leaves open. -/
def region (rendering : Rendering) (state : Segmenter) (region : Region) :
    List Piece × Segmenter :=
  let layers? := rendering.layers? region.active
  let (segments, after) := state.split region.text
  (rendering.notes region.anchors ++ segments.map (segmentPiece layers?), after)

/-- The pieces of regions, one list for each, from the state that is left open before them. -/
def regionsFrom (rendering : Rendering) (state : Segmenter) : List Region → List (List Piece)
  | [] => []
  | next :: regions =>
    let (pieces, after) := rendering.region state next
    pieces :: rendering.regionsFrom after regions

/-- The pieces of the regions of one text, one list for each. -/
def regions (rendering : Rendering) (regions : List Region) : List (List Piece) :=
  rendering.regionsFrom .start regions

/-- A warning for each anchor whose highlight is not known. -/
def warnings (rendering : Rendering) (regions : List Region) : List Warning :=
  (regions.flatMap Region.anchors).filter (fun index => (rendering.find? index).isNone)
    |>.map .unknownAnchor

/-- The text of pieces. -/
def textOf (pieces : List Piece) : Text :=
  pieces.flatMap Piece.toText

end Rendering

end Marginalia
