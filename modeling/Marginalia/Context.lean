/-! # Contexts

Which commands and environments cannot hold a margin note, and which commands are known to be
harmless.  A document's settings add to the restricted ones; a command that becomes restricted is
no longer harmless.
-/
namespace Marginalia

/-- How a command's argument bears a margin note. -/
inductive ContextKind where
  /-- It cannot hold one. -/
  | restricted
  /-- It can hold one. -/
  | safe
  /-- Nothing is known. -/
  | unknown
  deriving DecidableEq, Repr

/-- The commands and environments that are restricted, and the commands that are safe. -/
structure Contexts where
  commands : List String
  environments : List String
  safe : List String
  deriving Repr

namespace Contexts

/-- The contexts known from the start. -/
def standard : Contexts where
  commands :=
    ["part", "chapter", "section", "subsection", "subsubsection", "paragraph", "subparagraph",
     "caption", "texorpdfstring", "footnote", "item"]
  environments := ["tabular", "tabular*", "tabularx", "longtable", "array", "minipage"]
  safe :=
    ["highLight", "underLine", "emph", "textbf", "textit", "texttt", "textsc", "textsf", "textsl",
     "textrm", "textnormal", "underline", "sout", "st", "href", "url", "hyperlink", "hypertarget",
     "label", "mbox", "textsuperscript", "textsubscript", "enquote", "annot"]

/-- The list with one more name, unless it is there. -/
def addName (names : List String) (name : String) : List String :=
  if names.contains name then names else names ++ [name]

/-- The contexts with one more restricted command. -/
def restrictCommand (contexts : Contexts) (name : String) : Contexts :=
  { contexts with
    commands := addName contexts.commands name
    safe := contexts.safe.filter (· != name) }

/-- The contexts with more restricted commands. -/
def restrictCommands (contexts : Contexts) (names : List String) : Contexts :=
  names.foldl restrictCommand contexts

/-- The contexts with more restricted environments. -/
def restrictEnvironments (contexts : Contexts) (names : List String) : Contexts :=
  { contexts with environments := names.foldl addName contexts.environments }

/-- How the argument of a command bears a margin note. -/
def classify (contexts : Contexts) (command : String) : ContextKind :=
  if contexts.commands.contains command then .restricted
  else if contexts.safe.contains command then .safe
  else .unknown

/-- Whether the body of an environment cannot hold a margin note. -/
def isRestrictedEnvironment (contexts : Contexts) (env : String) : Bool :=
  contexts.environments.contains env

/-- Whether two lists have the same names. -/
def sameNames (xs ys : List String) : Bool :=
  xs.all ys.contains && ys.all xs.contains

/-- Whether two tables hold the same names. -/
def agrees (contexts other : Contexts) : Bool :=
  sameNames contexts.commands other.commands &&
    sameNames contexts.environments other.environments && sameNames contexts.safe other.safe

end Contexts

end Marginalia
