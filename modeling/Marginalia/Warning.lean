/-! # Warnings

What a step can report without failing.
-/
namespace Marginalia

/-- A circumstance that the result of a step leaves room for. -/
inductive Warning where
  /-- A highlight whose offsets do not fit the document was skipped. -/
  | misplacedHighlight (id : String) (start stop textLength : Nat)
  /-- An anchor names a highlight that is not there. -/
  | unknownAnchor (index : Nat)
  /-- A margin note stays in the argument of a command that no table lists. -/
  | noteInUnclassified (command : String) (offset : Nat)
  /-- A restricted environment is still open at the end. -/
  | openEnvironment (name : String)
  /-- A tag in use has no entry in the tag map. -/
  | missingTag (tag : String)
  /-- The colour of a tag cannot be read; the text says why. -/
  | unreadableColor (reason : String)
  deriving DecidableEq, Repr

namespace Warning

/-- The message of a warning. -/
def message : Warning → String
  | misplacedHighlight .. => "skipping highlight that does not fit the document"
  | unknownAnchor _ => "annotation anchor for unknown highlight"
  | noteInUnclassified .. =>
    "margin note inside unclassified command argument, left in place"
  | openEnvironment _ => "restricted environment never closes"
  | missingTag _ => "tag missing from colour map, using default colour"
  | unreadableColor _ => "tag colour is not a hex colour, using default"

end Warning

end Marginalia
