import Marginalia.Tag.Basic
import Marginalia.Warning

/-! # Styles

The style of a tag is what the document uses of it: a display name, a colour, and a slug from
which the names of its light and dark colours are made.  A style table covers the tags in use and
gives each of them a slug of its own.
-/
namespace Marginalia

open Text

/-- The colours used where a tag map gives none, and the share of the dark colour in the light
one in percent. -/
structure StyleSettings where
  defaultColor : Color
  manyColor : Color
  lightTint : UInt8
  deriving DecidableEq, Repr

/-- The settings used where none are given. -/
def StyleSettings.standard : StyleSettings where
  defaultColor := ⟨0x77, 0x77, 0x77⟩
  manyColor := ⟨0x33, 0x33, 0x33⟩
  lightTint := 30

/-- The style of a tag. -/
structure TagStyle where
  slug : Text
  name : Text
  color : Color
  deriving DecidableEq, Repr

namespace TagStyle

/-- The key of the colours of the tag. -/
def key (style : TagStyle) : Text :=
  "tag-".toList ++ style.slug

/-- The name of the dark colour. -/
def dark (style : TagStyle) : Text :=
  style.key ++ "-dark".toList

/-- The name of the light colour. -/
def light (style : TagStyle) : Text :=
  style.key ++ "-light".toList

end TagStyle

namespace Slug

/-- The runs of letters and digits of ASCII in a text, in lower case. -/
def words : Text → List Text
  | [] => []
  | c :: text =>
    if c.isAlphanum then
      match text, words text with
      | d :: _, word :: rest =>
        if d.isAlphanum then (c.toLower :: word) :: rest else [c.toLower] :: word :: rest
      | _, rest => [c.toLower] :: rest
    else words text

/-- The slug of a tag: its words joined by hyphens. -/
def base (tag : Text) : Text :=
  match words tag with
  | [] => "tag".toList
  | ws => ['-'].intercalate ws

/-- The slugs to try for a tag after its own is taken. -/
def numbered (slug : Text) (n : Nat) : Text :=
  slug ++ '-' :: decimal n

/-- A slug for the tag that is not taken. -/
def fresh (taken : List Text) (tag : Text) : Text :=
  let slug := base tag
  let candidates := slug :: (List.range taken.length).map fun k => numbered slug (k + 2)
  (candidates.find? fun candidate => !taken.contains candidate).getD slug

end Slug

/-- The styles of the tags in use, in the order of the tags, and the style that three or more
highlights share. -/
structure StyleTable where
  styles : List (String × TagStyle)
  manyColor : Color
  tint : Nat
  deriving DecidableEq, Repr

namespace StyleTable

/-- An ascending list of tags with one more entry. -/
def insertTag (tag : String) : List String → List String
  | [] => [tag]
  | t :: ts =>
    if tag < t then tag :: t :: ts else if tag = t then t :: ts else t :: insertTag tag ts

/-- The tags of a list in ascending order, each once. -/
def sortTags (tags : List String) : List String :=
  tags.foldl (fun sorted tag => insertTag tag sorted) []

/-- The style of a tag when some slugs are taken. -/
def styleOf (tags : TagMap) (settings : StyleSettings) (taken : List Text) (tag : String) :
    TagStyle :=
  let info? := tags.find? tag
  { slug := Slug.fresh taken tag.toList
    name := ((info?.bind TagInfo.name).map String.toList).getD (humanize tag.toList)
    color := (info?.bind TagInfo.color).getD settings.defaultColor }

/-- The styles of ascending tags when some slugs are taken. -/
def stylesFrom (tags : TagMap) (settings : StyleSettings) (taken : List Text) :
    List String → List (String × TagStyle)
  | [] => []
  | tag :: rest =>
    let style := styleOf tags settings taken tag
    (tag, style) :: stylesFrom tags settings (style.slug :: taken) rest

/-- The style table for the tags in use. -/
def ofTags (tags : TagMap) (settings : StyleSettings) (used : List String) : StyleTable where
  styles := stylesFrom tags settings [] (sortTags used)
  manyColor := settings.manyColor
  tint := min settings.lightTint.toNat 100

/-- A warning for each tag in use that the tag map does not list. -/
def warnings (tags : TagMap) (used : List String) : List Warning :=
  ((sortTags used).filter fun tag => (tags.find? tag).isNone).map .missingTag

/-- The style of a tag in use. -/
def find? (table : StyleTable) (tag : String) : Option TagStyle :=
  table.styles.lookup tag

/-- The definitions of a dark colour and of the light colour mixed from it. -/
def define (dark light : Text) (color : Color) (tint : Nat) : Text :=
  "\\definecolor\x7b".toList ++ dark ++ "\x7d\x7bHTML\x7d\x7b".toList ++ color.toText ++
    "\x7d\n\\colorlet\x7b".toList ++ light ++ "\x7d\x7b".toList ++ dark ++
    '!' :: decimal tint ++ "\x7d\n".toList

/-- The definitions of all colours, in the order of the tags. -/
def definitions (table : StyleTable) : Text :=
  table.styles.flatMap (fun (_, style) => define style.dark style.light style.color table.tint) ++
    define "many-dark".toList "many-light".toList table.manyColor table.tint

end StyleTable

end Marginalia
