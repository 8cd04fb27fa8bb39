import Marginalia.Text.Basic

/-! # Tags

Reading one tag of a marked-up text.  A tag runs from its angle bracket to the next closing one
outside the quotes of attribute values.  `readTag_append` and `skipElement_append` say that what
was read and what is left make up the text.
-/
namespace Marginalia.Markup

open Text

/-- A tag as it was read: its name in lower case, whether it closes an element, and its text. -/
structure Tag where
  name : String
  isClosing : Bool
  source : Text

/-- Whether the tag has a slash right before its closing bracket. -/
def Tag.isSelfClosing (tag : Tag) : Bool :=
  match tag.source.reverse with
  | '>' :: '/' :: _ => true
  | _ => false

/-- Whether a tag begins here: an angle bracket before a letter, a slash, an exclamation mark or
a question mark. -/
def startsTag : Text → Bool
  | '<' :: c :: _ => c.isAlpha || c == '/' || c == '!' || c == '?'
  | _ => false

/-- Whether the character can stand in the name of a tag. -/
def isNameChar (c : Char) : Bool :=
  c.isAlphanum || c == '-'

/-- The rest of a tag up to its closing bracket, and what follows; `quote` is the quotation mark
that is open. -/
def tagBody (quote : Option Char) : Text → Text × Text
  | [] => ([], [])
  | c :: text =>
    match quote with
    | some q =>
      let (body, rest) := tagBody (if c = q then none else some q) text
      (c :: body, rest)
    | none =>
      if c = '>' then ([c], text)
      else
        let (body, rest) := tagBody (if c = '"' || c = '\'' then some c else none) text
        (c :: body, rest)

theorem tagBody_append (quote : Option Char) (text : Text) :
    (tagBody quote text).1 ++ (tagBody quote text).2 = text := by
  induction text generalizing quote with
  | nil => rfl
  | cons c text ih =>
    cases quote with
    | some q => simp [tagBody, ih]
    | none =>
      simp only [tagBody]
      split <;> simp [ih]

/-- The name of a tag and the slash before it, read after the opening bracket. -/
def tagHead : Text → Text × Text
  | '/' :: text => (['/'], text)
  | text => ([], text)

theorem tagHead_append (text : Text) : (tagHead text).1 ++ (tagHead text).2 = text := by
  unfold tagHead
  split <;> simp

/-- Reads the tag whose opening bracket stands before `text`. -/
def readTag (text : Text) : Tag × Text :=
  let slash := (tagHead text).1
  let after := (tagHead text).2
  let name := after.takeWhile isNameChar
  let (body, rest) := tagBody none (after.dropWhile isNameChar)
  (⟨String.ofList (name.map Char.toLower), !slash.isEmpty, '<' :: (slash ++ name ++ body)⟩, rest)

theorem readTag_append (text : Text) :
    (readTag text).1.source ++ (readTag text).2 = '<' :: text := by
  have h := tagBody_append none ((tagHead text).2.dropWhile isNameChar)
  simp only [readTag, List.cons_append, List.append_assoc, h, List.takeWhile_append_dropWhile,
    tagHead_append]

/-- Whether the text begins with a closing tag of the named element: the name may be in any case
and must not run on. -/
def closesElement (name : Text) : Text → Bool
  | '<' :: '/' :: text =>
    (text.take name.length).map Char.toLower == name &&
      !(text[name.length]?).any Char.isAlphanum
  | _ => false

/-- The content of the named element through its closing tag, and what follows; all of the text
if no such tag comes. -/
def skipElement (name : Text) : Text → Text × Text
  | [] => ([], [])
  | c :: text =>
    if closesElement name (c :: text) then
      let (tag, rest) := readTag text
      (tag.source, rest)
    else
      let (content, rest) := skipElement name text
      (c :: content, rest)

theorem eq_of_closesElement {name : Text} {c : Char} {text : Text}
    (h : closesElement name (c :: text) = true) : c = '<' := by
  unfold closesElement at h
  split at h
  · next heq => exact (List.cons.inj heq).1
  · simp at h

theorem skipElement_append (name text : Text) :
    (skipElement name text).1 ++ (skipElement name text).2 = text := by
  induction text with
  | nil => rfl
  | cons c text ih =>
    simp only [skipElement]
    split
    · next h => rw [eq_of_closesElement h]; exact readTag_append text
    · simp [ih]

end Marginalia.Markup
