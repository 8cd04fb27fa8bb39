import Marginalia.Conversion
import Marginalia.Latex.PdfString
import Marginalia.Relocation
import Marginalia.Rendering
import Marginalia.Settings.Basic

/-! # Export

The way of a document to LaTeX: sentinels are injected, a converter turns the marked-up text into
LaTeX, the sentinels are read back, and the regions between them are rendered; then the margin
notes are moved out of restricted contexts and the colours are defined in front.

`preamble` holds the packages and the note command that the body relies on.
-/
namespace Marginalia

open Text

/-- Why a document could not be exported. -/
inductive ExportError where
  | token (error : TokenError)
  | boundary (error : BoundaryError)
  | conversion (error : ConversionError)
  deriving DecidableEq, Repr

/-- What is told of the error. -/
def ExportError.diagnostic : ExportError → Diagnostic
  | token error => error.diagnostic
  | boundary error => error.diagnostic
  | conversion error => error.diagnostic

/-- The packages and the note command that a body relies on. -/
def preamble : String :=
  "\\usepackage\x7bxcolor\x7d\n" ++
  "\\usepackage\x7bluacolor\x7d\n" ++
  "\\usepackage[soul]\x7blua-ul\x7d\n" ++
  "\\newcommand\x7b\\annot\x7d[2]\x7b\\marginpar\x7b\\raggedright\\scriptsize" ++
  "\x7b\\color\x7b#1-dark\x7d\\rule\x7b\\linewidth\x7d\x7b1pt\x7d\x7d\\par #2\x7d\x7d\n"

/-- The class and the packages of a complete document. -/
def documentHead : String :=
  "\\documentclass[11pt]\x7barticle\x7d\n" ++
  "\\usepackage[a4paper, left=2.5cm, right=6cm, marginparwidth=4.5cm, marginparsep=0.5cm]" ++
  "\x7bgeometry\x7d\n" ++
  "\\usepackage\x7blongtable\x7d\n" ++
  "\\usepackage\x7bbooktabs\x7d\n" ++
  "\\usepackage\x7barray\x7d\n" ++
  "\\usepackage\x7bcalc\x7d\n" ++
  "\\usepackage\x7bgraphicx\x7d\n" ++
  "\\usepackage\x7bhyperref\x7d\n" ++
  "\\providecommand\x7b\\tightlist\x7d\x7b\\setlength\x7b\\itemsep\x7d\x7b0pt\x7d" ++
  "\\setlength\x7b\\parskip\x7d\x7b0pt\x7d\x7d\n" ++
  "\\providecommand\x7b\\pandocbounded\x7d[1]\x7b#1\x7d\n"

/-- An exporter for documents with the same settings and tags. -/
structure Exporter where
  settings : Settings
  tags : TagMap
  isStandalone : Bool

/-- An exported document. -/
structure Exported where
  latex : Text
  skipped : List Skipped
  regionCount : Nat

/-- What a step of an export gave, and the warnings on the way. -/
structure ExportResult where
  result : Except ExportError Exported
  warnings : List Warning

namespace Exporter

/-- The restricted contexts of an exporter. -/
def contexts (exporter : Exporter) : Contexts :=
  (Contexts.standard.restrictCommands exporter.settings.restricted.commands).restrictEnvironments
    exporter.settings.restricted.environments

/-- Writes the sentinels of highlights into a document. -/
def inject (exporter : Exporter) (markup : Text) (highlights : List Highlight) : Injected :=
  Injection.inject exporter.settings.whitespace markup highlights

/-- The body with its colours, or the complete document. -/
def assemble (exporter : Exporter) (styles : StyleTable) (body : Text) : Text :=
  if exporter.isStandalone then
    documentHead.toList ++ preamble.toList ++ styles.definitions ++
      "\n\\begin\x7bdocument\x7d\n\n".toList ++ body ++
      (if body.getLast? = some '\n' then [] else ['\n']) ++ "\n\\end\x7bdocument\x7d\n".toList
  else styles.definitions ++ '\n' :: body

/-- The tokens of a converted text, if its marks are those of the highlights in place. -/
def readBack (converted : Text) (expected : Nat) : Except TokenError (List Token) := do
  let tokens ← Token.ofText (Latex.stripPdfStrings converted)
  Token.checkRoundTrip tokens expected
  return tokens

/-- The styles of the tags of highlights in place. -/
def styles (exporter : Exporter) (placed : List Placed) : StyleTable :=
  .ofTags exporter.tags exporter.settings.style (placed.map fun p => p.highlight.tag)

/-- Compiles a converted text for the highlights that were injected. -/
def compile (exporter : Exporter) (converted : Text) (injected : Injected) : ExportResult :=
  match readBack converted injected.placed.length with
  | .error error => ⟨.error (.token error), []⟩
  | .ok tokens =>
    let regions := Region.ofTokens tokens
    let styles := exporter.styles injected.placed
    let rendering : Rendering := ⟨injected.placed.toArray, styles⟩
    let body := Rendering.textOf (rendering.regions regions).flatten
    let relocated := relocate exporter.contexts body
    let warnings :=
      StyleTable.warnings exporter.tags (injected.placed.map fun p => p.highlight.tag) ++
        rendering.warnings regions ++ relocated.warnings
    match relocated.result with
    | .error error => ⟨.error (.boundary error), warnings⟩
    | .ok body =>
      ⟨.ok ⟨exporter.assemble styles body, injected.skipped, regions.length⟩, warnings⟩

/-- Exports a document with a converter. -/
def run (exporter : Exporter) (convert : Text → Except ConversionError Text) (markup : Text)
    (highlights : List Highlight) : ExportResult :=
  let injected := exporter.inject markup highlights
  match convert injected.markup with
  | .error error => ⟨.error (.conversion error), injected.warnings⟩
  | .ok converted =>
    let compiled := exporter.compile converted injected
    { compiled with warnings := injected.warnings ++ compiled.warnings }

end Exporter

end Marginalia
