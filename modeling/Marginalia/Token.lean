import Marginalia.Diagnostic
import Marginalia.IndexSet
import Marginalia.Sentinel

/-! # Tokens

A converted text as a sequence of literal texts and marks.  Reading fails where the marks cannot
come from one injection: a start or an end without its partner, an end before its start, or a mark
that comes twice.  `checkRoundTrip` then compares the marks with the number of highlights that
were injected.

A mark after another one has a literal between them, which may be empty.  A sentinel without an
index is not a mark: the text up to it is given out, and it stays in the run of text under way.
-/
namespace Marginalia

open Text

/-- A literal text, or the mark of a highlight. -/
inductive Token where
  | text (literal : Text)
  | mark (kind : Sentinel.Kind) (index : Nat)
  deriving DecidableEq, Repr

/-- Why the marks of a converted text are not those of an injection. -/
inductive TokenError where
  | unmatchedStart (index offset : Nat)
  | unmatchedEnd (index offset : Nat)
  | endBeforeStart (index start stop : Nat)
  | duplicate (kind : Sentinel.Kind) (index offset : Nat)
  | missingMarker (kind : Sentinel.Kind) (index : Nat)
  | unknownIndex (index offset : Nat)
  deriving DecidableEq, Repr

namespace TokenError

/-- What is told of the error. -/
def diagnostic : TokenError → Diagnostic
  | unmatchedStart index offset =>
    .plain s!"highlight {index} starts at byte {offset} but never ends"
      "gloss::tokenize::unmatched_start"
  | unmatchedEnd index offset =>
    .plain s!"highlight {index} ends at byte {offset} but never starts"
      "gloss::tokenize::unmatched_end"
  | endBeforeStart index start stop =>
    .plain s!"highlight {index} ends at byte {stop} before it starts at byte {start}"
      "gloss::tokenize::end_before_start"
  | duplicate kind index offset =>
    .plain
      (kind.description ++
        s!" marker for highlight {index} appears more than once (again at byte {offset})")
      "gloss::tokenize::duplicate"
  | missingMarker kind index =>
    { message :=
        kind.description ++ s!" marker for highlight {index} is missing from the converted output"
      code := "gloss::tokenize::missing"
      help := some
        "the converter dropped a sentinel; check its options for text that gets discarded"
      labels := none }
  | unknownIndex index offset =>
    .plain s!"marker at byte {offset} refers to unknown highlight {index}"
      "gloss::tokenize::unknown_index"

end TokenError

namespace Token

/-- A mark and the byte where its sentinel begins. -/
structure Placed where
  kind : Sentinel.Kind
  index : Nat
  offset : Nat

/-- What reading has found: the tokens, latest first, the marks, the run of text since the last
mark, the number of bytes read, and whether there was a mark. -/
structure Reader where
  tokens : List Token
  marks : List Placed
  run : Text
  offset : Nat
  afterMark : Bool

namespace Reader

/-- Reading before the first character. -/
def start : Reader :=
  ⟨[], [], [], 0, false⟩

/-- The byte where the mark of a highlight begins, if it has come. -/
def offset? (marks : List Placed) (kind : Sentinel.Kind) (index : Nat) : Option Nat :=
  (marks.find? fun mark => mark.kind = kind ∧ mark.index = index).map Placed.offset

/-- Reads a literal text and the sentinel after it. -/
def next (reader : Reader) (literal : Text) (sentinel : Sentinel) : Except TokenError Reader :=
  let run := reader.run ++ literal
  let offset := reader.offset + literal.byteLength
  let after := offset + sentinel.toText.byteLength
  let tokens :=
    if run.isEmpty && !reader.afterMark then reader.tokens else .text run :: reader.tokens
  match sentinel.index? with
  | none =>
    -- The text before it has been given out, and yet it stays in the run.
    .ok ⟨tokens, reader.marks, run ++ sentinel.toText, after, reader.afterMark⟩
  | some index =>
    if (offset? reader.marks sentinel.kind index).isSome then
      .error (.duplicate sentinel.kind index offset)
    else
      .ok ⟨.mark sentinel.kind index :: tokens, ⟨sentinel.kind, index, offset⟩ :: reader.marks,
        [], after, true⟩

/-- The tokens after the text that follows the last sentinel. -/
def finish (reader : Reader) (tail : Text) : List Token :=
  let run := reader.run ++ tail
  (if run.isEmpty then reader.tokens else .text run :: reader.tokens).reverse

/-- What is wrong with the start and the end of one highlight. -/
def partnerError? (marks : List Placed) (index : Nat) : Option TokenError :=
  match offset? marks .start index, offset? marks .stop index with
  | some start, none => some (.unmatchedStart index start)
  | none, some stop => some (.unmatchedEnd index stop)
  | some start, some stop => if stop < start then some (.endBeforeStart index start stop) else none
  | none, none => none

end Reader

/-- Cuts a converted text into tokens. -/
def ofText (text : Text) : Except TokenError (List Token) := do
  let marked := Marked.ofText text
  let reader ← marked.parts.foldlM (fun reader part => reader.next part.1 part.2) Reader.start
  let indices := IndexSet.ofList (reader.marks.map Placed.index)
  match indices.toList.findSome? (Reader.partnerError? reader.marks) with
  | some error => throw error
  | none => return reader.finish marked.tail

/-- The first mark whose index is not below `expected`; `offset` is the byte where the tokens
begin. -/
def unknownIndex? (expected offset : Nat) : List Token → Option TokenError
  | [] => none
  | .text literal :: tokens => unknownIndex? expected (offset + literal.byteLength) tokens
  | .mark kind index :: tokens =>
    if index < expected then
      unknownIndex? expected (offset + (Sentinel.ofIndex kind index).toText.byteLength) tokens
    else some (.unknownIndex index offset)

/-- The first mark that is missing for the highlights from `index` up to `expected`. -/
def missing? (tokens : List Token) (expected index : Nat) : Option TokenError :=
  if index < expected then
    match Sentinel.Kind.all.find? fun kind => !tokens.contains (.mark kind index) with
    | some kind => some (.missingMarker kind index)
    | none => missing? tokens expected (index + 1)
  else none
termination_by expected - index

/-- Checks that the marks are those of `expected` highlights. -/
def checkRoundTrip (tokens : List Token) (expected : Nat) : Except TokenError Unit :=
  match unknownIndex? expected 0 tokens with
  | some error => throw error
  | none =>
    match missing? tokens expected 0 with
    | some error => throw error
    | none => return ()

/-- The literal text of a token. -/
def literal : Token → Text
  | .text literal => literal
  | .mark _ _ => []

end Token

end Marginalia
