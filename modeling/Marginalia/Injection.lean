import Marginalia.Highlight.Basic
import Marginalia.Markup.Visible
import Marginalia.Sentinel
import Marginalia.Text.Cluster
import Marginalia.Warning

/-! # Injection of sentinels

Each highlight that fits the document is widened to whole grapheme clusters and gets the next
index.  Its three sentinels are written into the marked-up text: the end after the source of its
last unit, the anchor and the start before the source of its first one.  Where sentinels meet,
ends come first, the highest index leading, and then each highlight's anchor and start, the lowest
index leading.

Sentinels stand only between pieces of the source, so they never cut a tag or a reference.
-/
namespace Marginalia

open Text Markup

/-- Why a highlight does not fit a document. -/
inductive SkipReason where
  /-- It ends past the end of the visible text, which has the given length. -/
  | outOfBounds (textLength : Nat)
  /-- It does not end after its start. -/
  | empty
  deriving DecidableEq, Repr

/-- A highlight that was left out. -/
structure Skipped where
  id : String
  start : Nat
  stop : Nat
  reason : SkipReason
  deriving DecidableEq, Repr

/-- A highlight in place: its index, the units it covers after widening, and the bytes of the
source where its sentinels stand. -/
structure Placed where
  index : Nat
  start : Nat
  stop : Nat
  startByte : Nat
  stopByte : Nat
  highlight : Highlight
  deriving DecidableEq, Repr

/-- A marked-up text with sentinels, and what became of the highlights. -/
structure Injected where
  markup : Text
  placed : List Placed
  skipped : List Skipped
  warnings : List Warning

namespace Injection

/-- Why the highlight does not fit a visible text of the given length, if it does not. -/
def skipReason? (textLength : Nat) (highlight : Highlight) : Option SkipReason :=
  if highlight.stop ≤ highlight.start then some .empty
  else if textLength < highlight.stop then some (.outOfBounds textLength)
  else none

/-- The highlight in place, widened to the given cluster boundaries. -/
def place (units : Array VisibleUnit) (bounds : List Nat) (index : Nat) (highlight : Highlight) :
    Placed :=
  let start := floorIn bounds highlight.start
  let stop := ceilIn bounds highlight.stop
  { index, start, stop, highlight
    startByte := (units[start]?.map VisibleUnit.start).getD 0
    stopByte := (units[stop - 1]?.map VisibleUnit.stop).getD 0 }

/-- The highlights that fit, in order, the first of them with the index `next`. -/
def placeFrom (units : Array VisibleUnit) (bounds : List Nat) (next : Nat) :
    List Highlight → List Placed
  | [] => []
  | highlight :: highlights =>
    match skipReason? units.size highlight with
    | some _ => placeFrom units bounds next highlights
    | none =>
      place units bounds next highlight :: placeFrom units bounds (next + 1) highlights

/-- The highlights that do not fit, in order. -/
def skipped (textLength : Nat) (highlights : List Highlight) : List Skipped :=
  highlights.filterMap fun highlight =>
    (skipReason? textLength highlight).map fun reason =>
      ⟨highlight.id, highlight.start, highlight.stop, reason⟩

/-- The sentinels that stand at a byte of the source. -/
def sentinelsAt (placed : List Placed) (byte : Nat) : List Sentinel :=
  -- What ends here ends before anything starts here.
  (placed.reverse.filter (·.stopByte = byte)).map (fun p => .ofIndex .stop p.index) ++
    (placed.filter (·.startByte = byte)).flatMap fun p =>
      [.ofIndex .anchor p.index, .ofIndex .start p.index]

/-- The source of pieces, the first of which begins at `byte`, with the sentinels between them. -/
def splice (placed : List Placed) (byte : Nat) : List Piece → Text
  | [] => (sentinelsAt placed byte).flatMap Sentinel.toText
  | piece :: pieces =>
    (sentinelsAt placed byte).flatMap Sentinel.toText ++ piece.source ++
      splice placed (byte + piece.source.byteLength) pieces

/-- Writes the sentinels of the highlights into a marked-up text. -/
def inject (mode : Whitespace) (markup : Text) (highlights : List Highlight) : Injected :=
  let pieces := pieces mode markup
  let units := (units pieces).toArray
  let placed := placeFrom units (boundaries (shownText pieces)) 0 highlights
  let skipped := skipped units.size highlights
  { markup := splice placed 0 pieces
    placed, skipped
    warnings := skipped.map fun s => .misplacedHighlight s.id s.start s.stop units.size }

end Injection

end Marginalia
