import Marginalia.Text.Basic

/-! # Vocabulary of LaTeX

What is known of command and environment names: how many of their arguments hold names, lengths
or addresses instead of text, which commands define others, and which stand for a glyph.
-/
namespace Marginalia.Latex

/-- Commands with one argument that is not text. -/
def oneRawArgument : List String :=
  ["begin", "end", "label", "ref", "pageref", "eqref", "autoref", "url", "nolinkurl", "href",
   "hyperlink", "hypertarget", "includegraphics", "cite", "citep", "citet", "color", "textcolor",
   "colorbox", "hspace", "vspace", "pagecolor", "input", "include"]

/-- Commands with two arguments that are not text. -/
def twoRawArguments : List String :=
  ["setlength", "addtolength", "setcounter", "addtocounter", "rule", "fcolorbox", "multicolumn",
   "multirow", "addcontentsline", "colorlet", "newcommand", "renewcommand", "providecommand"]

/-- Commands with three arguments that are not text. -/
def threeRawArguments : List String :=
  ["definecolor"]

/-- The number of arguments of a command that are not text. -/
def rawArgumentCount (command : String) : Nat :=
  if oneRawArgument.contains command then 1
  else if twoRawArguments.contains command then 2
  else if threeRawArguments.contains command then 3
  else 0

/-- Environments whose beginning takes a column specification or a width. -/
def oneBeginArgument : List String :=
  ["tabular", "tabular*", "longtable", "array", "minipage", "wrapfigure"]

/-- Environments whose beginning takes a width and a column specification. -/
def twoBeginArguments : List String :=
  ["tabularx"]

/-- The number of arguments after the name of an environment that are not text. -/
def beginArgumentCount (env : String) : Nat :=
  if oneBeginArgument.contains env then 1
  else if twoBeginArguments.contains env then 2
  else 0

/-- Commands that take a control sequence and a body. -/
def definitionCommands : List String :=
  ["def", "gdef", "edef", "xdef", "let"]

/-- Whether the command takes a control sequence and a body. -/
def isDefinition (command : String) : Bool :=
  definitionCommands.contains command

/-- Commands without arguments that stand for a glyph. -/
def textSymbols : List String :=
  ["ldots", "dots", "textquotesingle", "textquotedbl", "textquoteleft", "textquoteright",
   "textbackslash", "textasciitilde", "textasciicircum", "textless", "textgreater", "textbar",
   "textbullet", "textendash", "textemdash", "textdegree", "textsection", "textparagraph",
   "textregistered", "texttrademark", "copyright", "S", "P", "ss", "ae", "AE", "oe", "OE", "o",
   "O", "i", "j", "l", "L", "pounds", "euro", "slash", "nobreakspace", "enspace", "quad", "qquad",
   "LaTeX", "TeX"]

/-- Whether the command stands for a glyph. -/
def isTextSymbol (command : String) : Bool :=
  textSymbols.contains command

end Marginalia.Latex
