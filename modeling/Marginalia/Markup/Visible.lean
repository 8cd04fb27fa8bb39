import Marginalia.Markup.Piece

/-! # Visible text

The text that a marked-up text shows to a reader, one unit for each character of it.  A unit
remembers the bytes of the source that show it; highlights count in units.
-/
namespace Marginalia.Markup

/-- A visible character and the bytes of the source it comes from. -/
structure VisibleUnit where
  char : Char
  start : Nat
  stop : Nat
  deriving DecidableEq, Repr

/-- The units that pieces show when the first of them begins at byte `at'`. -/
def unitsFrom (at' : Nat) : List Piece → List VisibleUnit
  | [] => []
  | piece :: pieces =>
    let stop := at' + piece.source.byteLength
    piece.shown.map (⟨·, at', stop⟩) ++ unitsFrom stop pieces

/-- The units that pieces show. -/
def units (pieces : List Piece) : List VisibleUnit :=
  unitsFrom 0 pieces

/-- The text that pieces show. -/
def shownText (pieces : List Piece) : Text :=
  pieces.flatMap Piece.shown

theorem map_char_unitsFrom (at' : Nat) (pieces : List Piece) :
    (unitsFrom at' pieces).map VisibleUnit.char = shownText pieces := by
  induction pieces generalizing at' with
  | nil => rfl
  | cons piece pieces ih =>
    simp only [unitsFrom, List.map_append, List.map_map, ih, shownText, List.flatMap_cons]
    congr 1
    exact List.map_id _

/-- The characters of the units are the visible text. -/
theorem map_char_units (pieces : List Piece) :
    (units pieces).map VisibleUnit.char = shownText pieces :=
  map_char_unitsFrom 0 pieces

/-- The units of a marked-up text. -/
def visibleUnits (mode : Whitespace) (markup : Text) : List VisibleUnit :=
  units (pieces mode markup)

/-- The visible text of a marked-up text. -/
def visibleText (mode : Whitespace) (markup : Text) : Text :=
  shownText (pieces mode markup)

end Marginalia.Markup
