import Marginalia.Style

/-! # Wrappers

Highlighted text stands in wrappers that colour and underline it.  One or two highlights show in
their own styles, the one with the lower index outside; more of them share one style.
-/
namespace Marginalia

/-- The styles around a highlighted text. -/
inductive Layers where
  | one (style : TagStyle)
  | two (outer inner : TagStyle)
  | many
  deriving DecidableEq, Repr

namespace Layers

/-- The wrapper that gives a text a background of the named colour. -/
def highLight (color text : Text) : Text :=
  "\\highLight[".toList ++ color ++ "]\x7b".toList ++ text ++ ['\x7d']

/-- The wrapper that draws a line of the named colour under a text; `height` and `bottom` are
written in points. -/
def underLine (color height bottom text : Text) : Text :=
  "\\underLine[color=".toList ++ color ++ ", height=".toList ++ height ++
    "pt, bottom=".toList ++ bottom ++ "pt]\x7b".toList ++ text ++ ['\x7d']

/-- The text in its wrappers. -/
def wrap (layers : Layers) (text : Text) : Text :=
  match layers with
  | one style =>
    highLight style.light (underLine style.dark ['1'] ['-', '3'] text)
  | two outer inner =>
    highLight outer.light (highLight inner.light
      (underLine outer.dark ['2'] ['-', '3'] (underLine inner.dark ['1'] ['-', '5'] text)))
  | many =>
    highLight "many-light".toList (underLine "many-dark".toList ['4'] ['-', '5'] text)

end Layers

end Marginalia
