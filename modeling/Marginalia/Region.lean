import Marginalia.Token

/-! # Regions

The literal texts of a converted text, each with the set of highlights that are open over it and
the anchors that fall at its start.  The open highlights are a set and not a stack, so highlights
may cross.
-/
namespace Marginalia

/-- A literal text, the highlights open over it, and the anchors at its start. -/
structure Region where
  text : Text
  active : IndexSet
  anchors : List Nat

namespace Region

/-- The regions of tokens, with the highlights that are open and the anchors that wait for the
next literal. -/
def ofTokensFrom (active : IndexSet) (anchors : List Nat) : List Token → List Region
  | [] => if anchors.isEmpty then [] else [⟨[], active, anchors⟩]
  | .text literal :: tokens => ⟨literal, active, anchors⟩ :: ofTokensFrom active [] tokens
  | .mark .start index :: tokens => ofTokensFrom (active.insert index) anchors tokens
  | .mark .stop index :: tokens => ofTokensFrom (active.erase index) anchors tokens
  | .mark .anchor index :: tokens => ofTokensFrom active (anchors ++ [index]) tokens

/-- The regions of tokens.  Anchors after the last literal get an empty region of their own. -/
def ofTokens (tokens : List Token) : List Region :=
  ofTokensFrom .empty [] tokens

/-- Whether the region has no text. -/
def isEmpty (region : Region) : Bool :=
  region.text.isEmpty

end Region

end Marginalia
