import Marginalia.Text.Basic

/-! # White space

Three classes of white space meet here: the five characters that markup treats as white space,
the four that separate words in LaTeX, and the white space of Unicode, which trimming removes.
Each is a subset of the last (`isBlank_of_isMarkupBlank`, `isBlank_of_isTexBlank`).
-/
namespace Marginalia.Text

/-- White space between words of markup: space, tab, line feed, form feed, carriage return. -/
def isMarkupBlank (c : Char) : Bool :=
  c == ' ' || c == '\t' || c == '\n' || c == '\x0c' || c == '\r'

/-- White space between words of LaTeX: space, tab, carriage return, line feed. -/
def isTexBlank (c : Char) : Bool :=
  c == ' ' || c == '\t' || c == '\r' || c == '\n'

/-- The characters with the Unicode property `White_Space`. -/
def isBlank (c : Char) : Bool :=
  let n := c.toNat
  (9 ≤ n && n ≤ 13) || n == 0x20 || n == 0x85 || n == 0xA0 || n == 0x1680 ||
    (0x2000 ≤ n && n ≤ 0x200A) || n == 0x2028 || n == 0x2029 || n == 0x202F || n == 0x205F ||
    n == 0x3000

theorem isBlank_of_isMarkupBlank {c : Char} (h : isMarkupBlank c = true) : isBlank c = true := by
  simp only [isMarkupBlank, Bool.or_eq_true, beq_iff_eq] at h
  rcases h with (((rfl | rfl) | rfl) | rfl) | rfl <;> decide

theorem isBlank_of_isTexBlank {c : Char} (h : isTexBlank c = true) : isBlank c = true := by
  simp only [isTexBlank, Bool.or_eq_true, beq_iff_eq] at h
  rcases h with ((rfl | rfl) | rfl) | rfl <;> decide

/-- The text without its leading white space. -/
def trimStart (text : Text) : Text :=
  text.dropWhile isBlank

/-- The text without its trailing white space. -/
def trimEnd (text : Text) : Text :=
  (text.reverse.dropWhile isBlank).reverse

/-- The text without the white space at its ends. -/
def trim (text : Text) : Text :=
  trimEnd (trimStart text)

/-- The white space at the front of a text. -/
def leadingBlank (text : Text) : Text :=
  text.takeWhile isBlank

/-- The white space at the end of a text. -/
def trailingBlank (text : Text) : Text :=
  (text.reverse.takeWhile isBlank).reverse

theorem leadingBlank_append_trimStart (text : Text) :
    leadingBlank text ++ trimStart text = text :=
  List.takeWhile_append_dropWhile

theorem trimEnd_append_trailingBlank (text : Text) :
    trimEnd text ++ trailingBlank text = text := by
  have h := congrArg List.reverse
    (List.takeWhile_append_dropWhile (p := isBlank) (l := text.reverse))
  rwa [List.reverse_append, List.reverse_reverse] at h

end Marginalia.Text
