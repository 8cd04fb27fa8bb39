import Marginalia.Text.Basic

/-! # Escaping for LaTeX

Text of users as LaTeX body text: every special character becomes a control symbol or a control
word with an empty group, and carriage returns are left out.
-/
namespace Marginalia.Latex

/-- One character as body text. -/
def escapeChar (c : Char) : Text :=
  if c == '\\' then "\\textbackslash\x7b\x7d".toList
  else if c == '\x7b' || c == '\x7d' || c == '$' || c == '&' || c == '#' || c == '%' ||
      c == '_' then
    ['\\', c]
  else if c == '^' then "\\textasciicircum\x7b\x7d".toList
  else if c == '~' then "\\textasciitilde\x7b\x7d".toList
  else if c == '\r' then []
  else [c]

/-- A text as body text. -/
def escape (text : Text) : Text :=
  text.flatMap escapeChar

@[simp] theorem escape_nil : escape [] = [] := rfl

@[simp] theorem escape_cons (c : Char) (text : Text) :
    escape (c :: text) = escapeChar c ++ escape text := rfl

@[simp] theorem escape_append (s t : Text) : escape (s ++ t) = escape s ++ escape t := by
  simp [escape]

end Marginalia.Latex
