import Marginalia.Highlight.Basic
import Marginalia.Json.Basic
import Marginalia.Moment.Parser

/-! # Highlights in JSON

Reading and writing highlights and their comments.  Comments may be left out, and so may the
paragraph, which may be null as well.
-/
namespace Marginalia

/-- The moment of a string. -/
def Json.moment? (json : Json) : Option Moment := do
  Moment.ofText? (← json.text?).toList

/-- A moment as a string. -/
def Moment.toJson (moment : Moment) : Json :=
  .string (String.ofList moment.toText)

namespace Comment

/-- Reads a comment. -/
def ofJson? (json : Json) : Option Comment := do
  match ← json.record? false ["author", "text", "timestamp"] with
  | [some author, some text, some timestamp] =>
    return { author := ← author.text?, text := ← text.text?, writtenAt := ← timestamp.moment? }
  | _ => none

/-- A comment as an object. -/
def toJson (comment : Comment) : Json :=
  .object [("author", .string comment.author), ("text", .string comment.text),
    ("timestamp", comment.writtenAt.toJson)]

end Comment

namespace Highlight

/-- The paragraph of a highlight: a string, or none if it is null or left out. -/
def paragraph? : Option Json → Option (Option String)
  | none => some none
  | some .null => some none
  | some json => json.text?.map some

/-- The comments of a highlight, none if they are left out. -/
def comments? : Option Json → Option (List Comment)
  | none => some []
  | some json => do (← json.items?).mapM Comment.ofJson?

/-- Reads a highlight. -/
def ofJson? (json : Json) : Option Highlight := do
  match ← json.record? false
      ["id", "start", "end", "tag", "author", "created_at", "comments", "para_ref"] with
  | [some id, some start, some stop, some tag, some author, some createdAt, comments,
      paragraph] =>
    return {
      id := ← id.text?
      start := ← start.natural? Text.wordBound
      stop := ← stop.natural? Text.wordBound
      tag := ← tag.text?
      author := ← author.text?
      createdAt := ← createdAt.moment?
      comments := ← comments? comments
      paragraph := ← paragraph? paragraph }
  | _ => none

/-- Reads a list of highlights. -/
def listOfJson? (json : Json) : Option (List Highlight) := do
  (← json.items?).mapM ofJson?

/-- A highlight as an object; a paragraph that is not there is left out. -/
def toJson (highlight : Highlight) : Json :=
  let paragraph := match highlight.paragraph with
    | some paragraph => [("para_ref", Json.string paragraph)]
    | none => []
  .object ([("id", .string highlight.id), ("start", .whole highlight.start),
    ("end", .whole highlight.stop), ("tag", .string highlight.tag),
    ("author", .string highlight.author), ("created_at", highlight.createdAt.toJson),
    ("comments", .array (highlight.comments.map Comment.toJson))] ++ paragraph)

end Highlight

end Marginalia
