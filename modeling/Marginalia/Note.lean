import Marginalia.Highlight.Basic
import Marginalia.Latex.Escape
import Marginalia.Style
import Marginalia.Text.Blank

/-! # Margin notes

The note of a highlight is a command with two arguments: the key of its tag's colours, and a body
with the tag's name, the paragraph it refers to, its author and time, and its comments.  All text
of users is escaped.
-/
namespace Marginalia

open Text Latex

namespace Note

/-- Lines gathered into paragraphs: a blank line ends the paragraph under way. -/
def paragraphs (current : List Text) : List Text → List (List Text)
  | [] => if current.isEmpty then [] else [current]
  | line :: lines =>
    if line.isEmpty then
      if current.isEmpty then paragraphs [] lines else current :: paragraphs [] lines
    else paragraphs (current ++ [line]) lines

/-- The text of a comment with its lines joined and its paragraphs kept. -/
def commentBody (text : Text) : Text :=
  let lines := (splitOn '\n' text).map trim
  "\\par ".toList.intercalate
    ((paragraphs [] lines).map fun paragraph => escape ([' '].intercalate paragraph))

/-- A comment in a note. -/
def commentText (comment : Comment) : Text :=
  "\\par\x7b\\scriptsize\\textbf\x7b".toList ++ escape comment.author.toList ++
    "\x7d, ".toList ++ comment.writtenAt.shortText ++ ":\x7d ".toList ++
    commentBody comment.text.toList

/-- The paragraph that a highlight refers to, if it names one. -/
def paragraphText (paragraph : Option String) : Text :=
  match paragraph.map fun p => trim p.toList with
  | none => []
  | some [] => []
  | some name => ' ' :: escape name

/-- The comments of a note under their rule. -/
def commentsText (comments : List Comment) : Text :=
  if comments.isEmpty then []
  else "\\par\\hrulefill".toList ++ comments.flatMap commentText

/-- The body of the note of a highlight. -/
def body (highlight : Highlight) (style : TagStyle) : Text :=
  "\\textbf\x7b".toList ++ escape style.name ++ '\x7d' :: paragraphText highlight.paragraph ++
    "\\par\x7b\\scriptsize ".toList ++ escape highlight.author.toList ++ ", ".toList ++
    highlight.createdAt.shortText ++ '\x7d' :: commentsText highlight.comments

/-- The note of a highlight. -/
def toText (highlight : Highlight) (style : TagStyle) : Text :=
  "\\annot\x7b".toList ++ style.key ++ "\x7d\x7b".toList ++ body highlight style ++ ['\x7d']

end Note

end Marginalia
