import Marginalia.Text.Blank
import Marginalia.Markup.Reference
import Marginalia.Markup.Tag

/-! # Pieces of a marked-up text

A marked-up text is cut into pieces, each with the text it shows to a reader: a tag, a comment or
the content of a hidden element shows nothing, a line break shows a line feed, a character or a
character reference shows itself.  Between two tags, collapsing turns a run of white space into
one piece that shows a space, and a stretch that only lays out the source into a piece that shows
nothing.

`source_pieces` says that the pieces make up the text, in either mode.
-/
namespace Marginalia.Markup

open Text

/-- How white space between tags counts. -/
inductive Whitespace where
  | preserve
  | collapse
  deriving DecidableEq, Repr

/-- A piece of a marked-up text and what it shows. -/
structure Piece where
  source : Text
  shown : Text
  deriving DecidableEq, Repr

namespace Piece

/-- A piece that shows one character of white space. -/
def isBlank (piece : Piece) : Bool :=
  match piece.shown with
  | [c] => isMarkupBlank c
  | _ => false

/-- The text that the pieces make up. -/
def sources (pieces : List Piece) : Text :=
  pieces.flatMap source

@[simp] theorem sources_nil : sources [] = [] := rfl

@[simp] theorem sources_cons (piece : Piece) (pieces : List Piece) :
    sources (piece :: pieces) = piece.source ++ sources pieces := rfl

@[simp] theorem sources_append (ps qs : List Piece) :
    sources (ps ++ qs) = sources ps ++ sources qs := by
  simp [sources]

end Piece

open Piece

/-- The characters and character references of a text between tags. -/
def atoms : Text → List Piece
  | [] => []
  | c :: text =>
    match if c = '&' then Reference.read? text else none with
    | some reference =>
      ⟨c :: text.take reference.length, reference.shown⟩ :: atoms (text.drop reference.length)
    | none => ⟨[c], [c]⟩ :: atoms text
termination_by text => text.length
decreasing_by all_goals simp; try omega

theorem sources_atoms (text : Text) : sources (atoms text) = text := by
  fun_induction atoms text with
  | case1 => rfl
  | case2 c text reference h ih => simp [ih]
  | case3 c text h ih => simp [ih]

/-- The piece for a run of white space, if there is one. -/
def blankPiece (run : Text) : List Piece :=
  if run.isEmpty then [] else [⟨run, [' ']⟩]

theorem sources_blankPiece (run : Text) : sources (blankPiece run) = run := by
  cases run <;> simp [blankPiece]

/-- The pieces with every run of white space as one piece; `run` is the run under way. -/
def collapse (run : Text) : List Piece → List Piece
  | [] => blankPiece run
  | piece :: pieces =>
    if piece.isBlank then collapse (run ++ piece.source) pieces
    else blankPiece run ++ piece :: collapse [] pieces

theorem sources_collapse (run : Text) (pieces : List Piece) :
    sources (collapse run pieces) = run ++ sources pieces := by
  induction pieces generalizing run with
  | nil => simp [collapse, sources_blankPiece]
  | cons piece pieces ih =>
    simp only [collapse]
    split <;> simp [ih, sources_blankPiece]

/-- Whether a text between tags only lays out the source: white space with a line feed in it. -/
def isLayout (text : Text) : Bool :=
  text.contains '\n' && text.all isMarkupBlank

/-- The pieces of a text between tags. -/
def textPieces (mode : Whitespace) (text : Text) : List Piece :=
  match mode with
  | .preserve => atoms text
  | .collapse => if isLayout text then [⟨text, []⟩] else collapse [] (atoms text)

theorem sources_textPieces (mode : Whitespace) (text : Text) :
    sources (textPieces mode text) = text := by
  cases mode with
  | preserve => exact sources_atoms text
  | collapse =>
    simp only [textPieces]
    split <;> simp [sources_collapse, sources_atoms]

/-- The text up to the next tag, and what follows. -/
def textRun : Text → Text × Text
  | [] => ([], [])
  | c :: text =>
    if startsTag (c :: text) then ([], c :: text)
    else
      let (run, rest) := textRun text
      (c :: run, rest)

theorem textRun_append (text : Text) : (textRun text).1 ++ (textRun text).2 = text := by
  induction text with
  | nil => rfl
  | cons c text ih =>
    simp only [textRun]
    split <;> simp [ih]

/-- The elements whose content shows nothing. -/
def hiddenElements : List String :=
  ["head", "script", "style", "template", "title", "noscript"]

/-- The piece of a tag, with the content of a hidden element, and what follows. -/
def tagPiece (text : Text) : Piece × Text :=
  let (tag, rest) := readTag text
  if !tag.isClosing && tag.name == "br" then (⟨tag.source, ['\n']⟩, rest)
  else if !tag.isClosing && !tag.isSelfClosing && hiddenElements.contains tag.name then
    let (content, rest) := skipElement tag.name.toList rest
    (⟨tag.source ++ content, []⟩, rest)
  else (⟨tag.source, []⟩, rest)

theorem tagPiece_append (text : Text) :
    (tagPiece text).1.source ++ (tagPiece text).2 = '<' :: text := by
  have h := readTag_append text
  simp only [tagPiece]
  split
  · exact h
  · split
    · simp [skipElement_append, h]
    · exact h

/-- The piece of a comment after its opening, and what follows. -/
def commentPiece (text : Text) : Piece × Text :=
  match split? "-->".toList text with
  | some (body, rest) => (⟨"<!--".toList ++ body ++ "-->".toList, []⟩, rest)
  | none => (⟨"<!--".toList ++ text, []⟩, [])

theorem commentPiece_append (text : Text) :
    (commentPiece text).1.source ++ (commentPiece text).2 = "<!--".toList ++ text := by
  unfold commentPiece
  split
  · next h => rw [split?_eq_some h]; simp
  · simp

/-- The first pieces of a text and what follows: a comment, a tag, or the text up to the next
tag. -/
def firstPieces (mode : Whitespace) (c : Char) (text : Text) : List Piece × Text :=
  match "<!--".toList.isPrefixOf? (c :: text) with
  | some body => ([(commentPiece body).1], (commentPiece body).2)
  | none =>
    if startsTag (c :: text) then ([(tagPiece text).1], (tagPiece text).2)
    else (textPieces mode (c :: (textRun text).1), (textRun text).2)

theorem eq_of_startsTag {c : Char} {text : Text} (h : startsTag (c :: text) = true) : c = '<' := by
  unfold startsTag at h
  split at h
  · next heq => exact (List.cons.inj heq).1
  · simp at h

theorem firstPieces_append (mode : Whitespace) (c : Char) (text : Text) :
    sources (firstPieces mode c text).1 ++ (firstPieces mode c text).2 = c :: text := by
  unfold firstPieces
  split
  · next body h =>
    rw [eq_append_of_isPrefixOf? h]
    simpa using commentPiece_append body
  · split
    · next h =>
      rw [eq_of_startsTag h]
      simpa using tagPiece_append text
    · simp [sources_textPieces, textRun_append]

theorem length_commentPiece_le (text : Text) : (commentPiece text).2.length ≤ text.length := by
  unfold commentPiece
  split
  · next h =>
    rw [split?_eq_some h]
    simp
    omega
  · simp

theorem length_textRun_le (text : Text) : (textRun text).2.length ≤ text.length := by
  have h := congrArg List.length (textRun_append text)
  simp at h
  omega

theorem length_readTag_le (text : Text) : (readTag text).2.length ≤ text.length := by
  have h := congrArg List.length (readTag_append text)
  have : 0 < (readTag text).1.source.length := by simp [readTag]
  simp at h
  omega

theorem length_skipElement_le (name text : Text) :
    (skipElement name text).2.length ≤ text.length := by
  have h := congrArg List.length (skipElement_append name text)
  simp at h
  omega

theorem length_tagPiece_le (text : Text) : (tagPiece text).2.length ≤ text.length := by
  have h := length_readTag_le text
  simp only [tagPiece]
  split
  · exact h
  · split
    · exact Nat.le_trans (length_skipElement_le _ _) h
    · exact h

theorem length_firstPieces_lt (mode : Whitespace) (c : Char) (text : Text) :
    (firstPieces mode c text).2.length < (c :: text).length := by
  unfold firstPieces
  split
  · next body h =>
    have := length_commentPiece_le body
    have := congrArg List.length (eq_append_of_isPrefixOf? h)
    simp at this ⊢
    omega
  · split
    · have := length_tagPiece_le text
      simp
      omega
    · have := length_textRun_le text
      simp
      omega

/-- The pieces of a marked-up text. -/
def pieces (mode : Whitespace) (text : Text) : List Piece :=
  match text with
  | [] => []
  | c :: text =>
    let read := firstPieces mode c text
    read.1 ++ pieces mode read.2
termination_by text.length
decreasing_by exact length_firstPieces_lt mode c text

/-- The pieces make up the text. -/
theorem sources_pieces (mode : Whitespace) (text : Text) : sources (pieces mode text) = text := by
  fun_induction pieces mode text with
  | case1 => rfl
  | case2 c text read ih => rw [sources_append, ih, firstPieces_append]

end Marginalia.Markup
