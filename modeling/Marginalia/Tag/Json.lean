import Marginalia.Json.Basic
import Marginalia.Tag.Basic
import Marginalia.Warning

/-! # Tag maps in JSON

A tag map is an object from tag ids to colours, or to objects with a display name and a colour.  A
colour that cannot be read leaves the tag without one and is reported; any other shape of an entry
makes the map unreadable.  Entries are read in the order of their ids.

The form of an entry is told from the whole of it, so nothing in it is passed over: all of it must
be readable and must not nest too deep.
-/
namespace Marginalia

namespace TagInfo

/-- The display name of a tag: a string, or none if it is null or left out. -/
def name? : Option Json → Option (Option String)
  | none => some none
  | some .null => some none
  | some json => json.text?.map some

/-- Arrays and objects of an entry nest in at most this many levels. -/
def maxDepth : Nat := 126

/-- The display name and the text of the colour in an entry. -/
def entry? (json : Json) : Option (Option String × String) :=
  if !json.isReadable maxDepth then none
  else
    match json with
    | .string color => some (none, color)
    | .object members => do
      return (← name? (← Json.field? members "name"), ← (← (← Json.field? members "color")).text?)
    | _ => none

/-- What is known of a tag by the name and the text of the colour in its entry. -/
def ofEntry (name : Option String) (color : String) : TagInfo :=
  ⟨name, Color.ofText? color.toList⟩

end TagInfo

/-- A tag map, or nothing if an entry is unreadable, with the warnings up to that entry. -/
structure ReadTags where
  tags : Option TagMap
  warnings : List Warning

namespace TagMap

/-- A list of members with one more, in the order of their names; of two members with one name
the later one comes first, so that it is the one found. -/
def insertMember (member : String × Json) : List (String × Json) → List (String × Json)
  | [] => [member]
  | next :: rest =>
    if next.1 < member.1 then next :: insertMember member rest else member :: next :: rest

/-- Reads entries in order. -/
def ofMembers : List (String × Json) → ReadTags
  | [] => ⟨some [], []⟩
  | (tag, json) :: members =>
    match TagInfo.entry? json with
    | none => ⟨none, []⟩
    | some (name, color) =>
      let info := TagInfo.ofEntry name color
      let rest := ofMembers members
      let warning :=
        if info.color.isNone then [.unreadableColor (Color.unreadable color.toList)] else []
      ⟨rest.tags.map ((tag, info) :: ·), warning ++ rest.warnings⟩

/-- Reads a tag map. -/
def ofJson : Json → ReadTags
  | .object members =>
    ofMembers (members.foldl (fun sorted member => insertMember member sorted) [])
  | _ => ⟨none, []⟩

end TagMap

end Marginalia
