import Marginalia.Color
import Marginalia.Text.Capital

/-! # Tags

A tag map gives tags a display name and a colour.  A tag without a display name is shown by its
id in words.
-/
namespace Marginalia

open Text

/-- The display name and the colour of a tag, where they are known. -/
structure TagInfo where
  name : Option String
  color : Option Color
  deriving DecidableEq, Repr

/-- Tags with what is known of them, in the order of their ids. -/
abbrev TagMap := List (String × TagInfo)

namespace TagMap

/-- What is known of a tag. -/
def find? (tags : TagMap) (tag : String) : Option TagInfo :=
  tags.lookup tag

end TagMap

/-- A tag id as a display name: underscores and hyphens become spaces, and the first letter is
upper case. -/
def humanize (id : Text) : Text :=
  capitalize (trim (id.map fun c => if c = '_' ∨ c = '-' then ' ' else c))

end Marginalia
