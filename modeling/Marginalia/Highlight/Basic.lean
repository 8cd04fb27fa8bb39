import Marginalia.Moment.Basic

/-! # Highlights

A highlight marks a stretch of the visible text of a document, counted in visible units, with a
tag, an author and replies.
-/
namespace Marginalia

/-- A reply to a highlight. -/
structure Comment where
  author : String
  text : String
  writtenAt : Moment
  deriving DecidableEq, Repr

/-- A highlight over the visible units from `start` up to `stop`, which is not included. -/
structure Highlight where
  id : String
  start : Nat
  stop : Nat
  tag : String
  author : String
  createdAt : Moment
  comments : List Comment
  paragraph : Option String
  deriving DecidableEq, Repr

end Marginalia
