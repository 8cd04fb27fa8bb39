import Marginalia.Latex.Scan
import Marginalia.Sentinel

/-! # Plain copies of headings

A heading in LaTeX may come with a plain copy of its text for bookmarks.  Converters fill the copy
from the heading, so it repeats the heading's sentinels; they are removed from the copy, which
leaves each of them once.
-/
namespace Marginalia.Latex

open Text

/-- The command that takes a heading and its plain copy. -/
def pdfStringCommand : Text :=
  "\\texorpdfstring".toList

/-- What can follow the command. -/
inductive PdfString where
  /-- A heading and its copy: the text before the copy, the copy, and the rest. -/
  | copy (heading copy rest : Text)
  /-- No pair of groups. -/
  | absent
  /-- A group that never closes. -/
  | unclosed
  deriving DecidableEq, Repr

/-- Reads the heading and its copy after the command. -/
def readPdfString (text : Text) : PdfString :=
  if text.head?.any Char.isAlpha then .absent
  else
    match skipBlanks text with
    | '{' :: heading =>
      match closeGroup 1 heading with
      | .unclosed _ => .unclosed
      | .closed afterHeading =>
        match skipBlanks afterHeading with
        | '{' :: copy =>
          match closeGroup 1 copy with
          | .unclosed _ => .unclosed
          | .closed rest =>
            .copy (upTo text ('{' :: copy)) (upTo ('{' :: copy) rest) rest
        | _ => .absent
    | _ => .absent

theorem readPdfString_append {text heading copy rest : Text}
    (h : readPdfString text = .copy heading copy rest) : heading ++ copy ++ rest = text := by
  unfold readPdfString at h
  split at h
  · simp at h
  · split at h
    · next hbody hskip =>
      split at h
      · simp at h
      · next after hclose =>
        split at h
        · next cbody hskip' =>
          split at h
          · simp at h
          · next r hclose' =>
            obtain ⟨rfl, rfl, rfl⟩ : _ = heading ∧ _ = copy ∧ r = rest := by simpa using h
            have h1 : '{' :: hbody <:+ text := hskip ▸ skipBlanks_suffix text
            have h2 : '{' :: cbody <:+ after := hskip' ▸ skipBlanks_suffix after
            have h3 : '{' :: cbody <:+ text :=
              (h2.trans (closeGroup_suffix hclose)).trans ((List.suffix_cons _ _).trans h1)
            rw [List.append_assoc,
              upTo_append ((closeGroup_suffix hclose').trans (List.suffix_cons _ _)),
              upTo_append h3]
        · simp at h
    · simp at h

/-- The text with the sentinels of every plain copy removed.  `fuel` bounds the number of
commands; the length of the text is enough. -/
def stripPdfStringsFrom : Nat → Text → Text
  | 0, text => text
  | fuel + 1, text =>
    match split? pdfStringCommand text with
    | none => text
    | some (front, after) =>
      match readPdfString after with
      | .copy heading copy rest =>
        front ++ pdfStringCommand ++ heading ++ stripSentinels copy ++
          stripPdfStringsFrom fuel rest
      | .absent => front ++ pdfStringCommand ++ stripPdfStringsFrom fuel after
      | .unclosed => text

/-- The text with the sentinels of every plain copy removed; a group that never closes ends the
search. -/
def stripPdfStrings (text : Text) : Text :=
  stripPdfStringsFrom (text.length + 1) text

end Marginalia.Latex
