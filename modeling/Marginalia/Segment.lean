import Marginalia.Latex.Scan
import Marginalia.Latex.Vocabulary

/-! # Segments

The text of a region is cut into running text, which may stand inside wrappers, and markup, which
must stay as it is.  A region can begin and end anywhere, so mathematics, verbatim text, arguments
that hold no text, and bracketed arguments may be open from one region to the next; a `Segmenter`
carries what is open.  Running text inside an open bracketed argument is shielded: wrappers around
it need braces, or their own brackets would end the argument.

`split_append` says that the segments of a region make up its text.
-/
namespace Marginalia

open Text Latex

/-- The four ways to open mathematics. -/
inductive MathDelimiter where
  | dollar
  | doubleDollar
  | paren
  | bracket
  deriving DecidableEq, Repr

namespace MathDelimiter

/-- The control symbol that ends the mathematics, if one does. -/
def closer? : MathDelimiter → Option Char
  | .dollar => none
  | .doubleDollar => none
  | .paren => some ')'
  | .bracket => some ']'

/-- What follows the end of mathematics, if it ends in this text. -/
def close? (delimiter : MathDelimiter) (text : Text) : Option Text :=
  match text with
  | [] => none
  | '\\' :: text =>
    if delimiter.closer?.map Control.symbol = some (readControl text).1 then
      some (readControl text).2
    else close? delimiter (readControl text).2
  | '%' :: text => close? delimiter (dropComment text)
  | '$' :: text =>
    if delimiter = .dollar then some text
    else if delimiter = .doubleDollar ∧ text.head? = some '$' then some text.tail
    else close? delimiter text
  | _ :: text => close? delimiter text
termination_by text.length
decreasing_by
  · have := (readControl_suffix text).length_le; simp; omega
  · have := (dropComment_suffix text).length_le; simp; omega
  all_goals simp

theorem close?_suffix {delimiter : MathDelimiter} {text rest : Text}
    (h : delimiter.close? text = some rest) : rest <:+ text := by
  fun_induction close? delimiter text with
  | case1 => simp at h
  | case2 text hc =>
    obtain rfl : (readControl text).2 = rest := by simpa using h
    exact (readControl_suffix text).trans (List.suffix_cons _ _)
  | case3 text hc ih => exact ((ih h).trans (readControl_suffix text)).trans (List.suffix_cons _ _)
  | case4 text ih => exact ((ih h).trans (dropComment_suffix text)).trans (List.suffix_cons _ _)
  | case5 text =>
    obtain rfl : text = rest := by simpa using h
    exact List.suffix_cons _ _
  | case6 text hd =>
    obtain rfl : text.tail = rest := by simpa using h
    exact (List.tail_suffix text).trans (List.suffix_cons _ _)
  | case7 text _ _ ih => exact (ih h).trans (List.suffix_cons _ _)
  | case8 c text _ _ _ ih => exact (ih h).trans (List.suffix_cons _ _)

end MathDelimiter

/-- What a segment may be used for. -/
inductive Segment.Kind where
  /-- Running text. -/
  | plain
  /-- Running text inside a bracketed argument that is still open. -/
  | shielded
  /-- Everything that is not running text. -/
  | markup
  deriving DecidableEq, Repr

/-- A part of a region's text and its kind. -/
structure Segment where
  kind : Segment.Kind
  text : Text
  deriving DecidableEq, Repr

/-- What is open besides bracketed arguments. -/
inductive Segmenter.Mode where
  | text
  | math (delimiter : MathDelimiter)
  | verbatim (env : Verbatim)
  /-- An argument that holds no text, with the number of groups open in it. -/
  | raw (depth : Nat)
  deriving DecidableEq, Repr

/-- What is open between two regions: the mode, and for each open bracketed argument, the
innermost first, the number of groups open in it. -/
structure Segmenter where
  mode : Segmenter.Mode
  brackets : List Nat
  deriving DecidableEq, Repr

namespace Segmenter

/-- Nothing is open. -/
def start : Segmenter :=
  ⟨.text, []⟩

/-- The kind of running text in this state. -/
def textKind (state : Segmenter) : Segment.Kind :=
  if state.brackets.isEmpty then .plain else .shielded

/-- One step: whether what was read is markup, what was read, what is left, and what is open
after it. -/
structure Step where
  isMarkup : Bool
  piece : Text
  rest : Text
  state : Segmenter

/-- Markup up to `rest`. -/
def passUpTo (state : Segmenter) (text rest : Text) : Step :=
  ⟨true, upTo text rest, rest, state⟩

/-- Markup up to `rest?`, or all of the text with the mode that is left open. -/
def passOrCarry (state : Segmenter) (text : Text) (rest? : Option Text) (carried : Mode) : Step :=
  match rest? with
  | some rest => passUpTo state text rest
  | none => ⟨true, text, [], { state with mode := carried }⟩

/-- What follows the bracketed arguments at the front of a text. -/
def optionalArguments (text : Text) : Text :=
  match _h : readBracket? (skipBlanks text) with
  | some rest => optionalArguments rest
  | none => text
termination_by text.length
decreasing_by
  have := readBracket?_length _h
  have := (skipBlanks_suffix text).length_le
  omega

/-- An argument that holds no text. -/
inductive RawArgument where
  | absent
  | read (content rest : Text)
  | unclosed (depth : Nat)

/-- Reads an argument that holds no text, after the bracketed arguments before it. -/
def rawArgument (text : Text) : RawArgument :=
  match optionalArguments (skipBlanks text) with
  | '{' :: body =>
    match closeGroup 1 body with
    | .closed rest => .read (upTo body rest).dropLast rest
    | .unclosed depth => .unclosed depth
  | _ => .absent

/-- Reads up to the given number of arguments that hold no text. -/
def rawArguments : Nat → Text → Closing
  | 0, text => .closed text
  | n + 1, text =>
    match rawArgument text with
    | .absent => .closed text
    | .read _ rest => rawArguments n rest
    | .unclosed depth => .unclosed depth

/-- Reads the arguments of a command that hold no text; the beginning of an environment has more
of them, depending on its name. -/
def commandArguments (command : String) (count : Nat) (text : Text) : Closing :=
  if command == "begin" then
    match rawArgument text with
    | .absent => .closed text
    | .read env rest => rawArguments (beginArgumentCount (String.ofList env)) rest
    | .unclosed depth => .unclosed depth
  else rawArguments count text

/-- What follows a star. -/
def dropStar : Text → Text
  | '*' :: text => text
  | text => text

/-- What follows the control sequence that a definition defines, and the marks of its
parameters. -/
def definitionHead (text : Text) : Text :=
  let after := match skipBlanks text with
    | '\\' :: name => (readControl name).2
    | _ => text
  after.dropWhile fun c => c == '#' || c.isDigit

/-- Reads a command with its arguments that hold no text; `text` follows its name and `whole`
begins at its backslash. -/
def command (state : Segmenter) (whole : Text) (name : String) (text : Text) : Step :=
  let (text, count) :=
    if isDefinition name then (definitionHead (dropStar text), 1)
    else (dropStar text, rawArgumentCount name)
  let text := optionalArguments text
  let arguments := fun _ : Unit =>
    match commandArguments name count text with
    | .closed rest => passUpTo state whole rest
    | .unclosed depth => ⟨true, whole, [], { state with mode := .raw depth }⟩
  match skipBlanks text with
  | '[' :: inner =>
    -- A bracketed argument that runs out of this region stays open for the next ones.
    if scanBracket inner = .unclosed then
      passUpTo { state with brackets := 0 :: state.brackets } whole inner
    else arguments ()
  | _ => arguments ()

/-- What follows an empty group. -/
def dropEmptyGroup : Text → Text
  | '{' :: '}' :: text => text
  | text => text

/-- Reads a control sequence after its backslash. -/
def control (state : Segmenter) (text : Text) : Step :=
  let whole := '\\' :: text
  match Verbatim.begins? whole with
  | some (env, body) => passOrCarry state whole (env.end? body) (.verbatim env)
  | none =>
    match readControl text with
    | (.symbol c, rest) =>
      if c = '\\' then passUpTo state whole rest
      else if c = '(' then
        passOrCarry state whole (MathDelimiter.paren.close? rest) (.math .paren)
      else if c = '[' then
        passOrCarry state whole (MathDelimiter.bracket.close? rest) (.math .bracket)
      else ⟨false, upTo whole rest, rest, state⟩
    | (.bare, rest) => ⟨false, upTo whole rest, rest, state⟩
    | (.word name, rest) =>
      if isTextSymbol name then
        ⟨false, upTo whole (dropEmptyGroup rest), dropEmptyGroup rest, state⟩
      else if name = "verb" then passUpTo state whole (dropVerb rest)
      else command state whole name rest

/-- The state with one more group open in the innermost bracketed argument. -/
def openGroup (state : Segmenter) : Segmenter :=
  match state.brackets with
  | [] => state
  | depth :: outer => { state with brackets := (depth + 1) :: outer }

/-- The state with one group less open in the innermost bracketed argument. -/
def endGroup (state : Segmenter) : Segmenter :=
  match state.brackets with
  | [] => state
  | depth :: outer => { state with brackets := (depth - 1) :: outer }

/-- The state after a closing bracket, which ends the innermost bracketed argument unless a group
is open in it. -/
def endBracket (state : Segmenter) : Segmenter :=
  match state.brackets with
  | 0 :: outer => { state with brackets := outer }
  | _ => state

/-- Reads what a dollar sign opens. -/
def dollar (state : Segmenter) (text : Text) : Step :=
  match text with
  | '$' :: body =>
    passOrCarry state ('$' :: text) (MathDelimiter.doubleDollar.close? body) (.math .doubleDollar)
  | _ => passOrCarry state ('$' :: text) (MathDelimiter.dollar.close? text) (.math .dollar)

/-- Reads what the character `c` begins. -/
def step (state : Segmenter) (c : Char) (text : Text) : Step :=
  match c with
  | '\\' => control state text
  | '{' => ⟨true, [c], text, state.openGroup⟩
  | '}' => ⟨true, [c], text, state.endGroup⟩
  | ']' => ⟨true, [c], text, state.endBracket⟩
  | '&' => ⟨true, [c], text, state⟩
  | '[' => ⟨true, [c], text, state⟩
  | '%' => passUpTo state (c :: text) (dropComment text)
  | '$' => dollar state text
  | _ =>
    if isTexBlank c then
      let run := c :: text.takeWhile isTexBlank
      -- A paragraph break is markup, other blanks belong to the text around them.
      ⟨2 ≤ run.count '\n', run, text.dropWhile isTexBlank, state⟩
    else ⟨false, [c], text, state⟩

/-- Reads what is open from the region before. -/
def resume (state : Segmenter) (text : Text) : Step :=
  let idle := { state with mode := .text }
  match state.mode with
  | .text => ⟨true, [], text, idle⟩
  | .math delimiter => passOrCarry idle text (delimiter.close? text) (.math delimiter)
  | .verbatim env => passOrCarry idle text (env.end? text) (.verbatim env)
  | .raw depth =>
    match closeGroup depth text with
    | .closed rest => passUpTo idle text rest
    | .unclosed open' => ⟨true, text, [], { idle with mode := .raw open' }⟩

/-- The part of a region that a step read. -/
def Step.segment (read : Step) (before : Segmenter) : Segment :=
  ⟨if read.isMarkup then .markup else before.textKind, read.piece⟩

/-! ### Markup and running text -/

theorem isMarkup_passOrCarry (state : Segmenter) (text : Text) (rest? : Option Text)
    (carried : Mode) : (passOrCarry state text rest? carried).isMarkup = true := by
  cases rest? <;> rfl

theorem isMarkup_command (state : Segmenter) (whole : Text) (name : String) (text : Text) :
    (command state whole name text).isMarkup = true := by
  unfold command
  split
  dsimp only
  split
  · split
    · rfl
    · split <;> rfl
  · split <;> rfl

theorem isMarkup_dollar (state : Segmenter) (text : Text) : (dollar state text).isMarkup = true := by
  unfold dollar
  split <;> exact isMarkup_passOrCarry ..

/-- A control sequence is running text only if it is the word of a glyph, with the empty group
behind it, a control symbol that neither breaks a line nor opens mathematics, or a backslash at the
end. -/
theorem control_of_running {state : Segmenter} {text : Text}
    (h : (control state text).isMarkup = false) :
    Verbatim.begins? ('\\' :: text) = none ∧
      ((∃ name rest, readControl text = (.word name, rest) ∧ isTextSymbol name = true ∧
          control state text =
            ⟨false, upTo ('\\' :: text) (dropEmptyGroup rest), dropEmptyGroup rest, state⟩) ∨
        (∃ c rest, readControl text = (.symbol c, rest) ∧ c ≠ '\\' ∧ c ≠ '(' ∧ c ≠ '[' ∧
          control state text = ⟨false, upTo ('\\' :: text) rest, rest, state⟩) ∨
        ∃ rest, readControl text = (.bare, rest) ∧
          control state text = ⟨false, upTo ('\\' :: text) rest, rest, state⟩) := by
  unfold control at h ⊢
  dsimp only at h ⊢
  cases hverbatim : Verbatim.begins? ('\\' :: text) with
  | some found =>
    rw [hverbatim] at h
    exact absurd h (by simp [isMarkup_passOrCarry])
  | none =>
    rw [hverbatim] at h
    dsimp only at h ⊢
    refine ⟨rfl, ?_⟩
    rcases hread : readControl text with ⟨name | c | _, rest⟩
    · rw [hread] at h
      dsimp only at h ⊢
      by_cases hglyph : isTextSymbol name = true
      · exact .inl ⟨name, rest, rfl, hglyph, if_pos hglyph⟩
      · rw [if_neg hglyph] at h
        split at h
        · cases h
        · rw [isMarkup_command] at h
          cases h
    · rw [hread] at h
      dsimp only at h ⊢
      by_cases hescape : c = '\\'
      · rw [if_pos hescape] at h
        cases h
      by_cases hparen : c = '('
      · rw [if_neg hescape, if_pos hparen, isMarkup_passOrCarry] at h
        cases h
      by_cases hbracket : c = '['
      · rw [if_neg hescape, if_neg hparen, if_pos hbracket, isMarkup_passOrCarry] at h
        cases h
      refine .inr (.inl ⟨c, rest, rfl, hescape, hparen, hbracket, ?_⟩)
      rw [if_neg hescape, if_neg hparen, if_neg hbracket]
    · exact .inr (.inr ⟨rest, rfl, rfl⟩)

/-! ### What a step reads -/

/-- The step read from the front of `c :: text`, and at least the first character. -/
structure Step.Reads (read : Step) (c : Char) (text : Text) : Prop where
  append : read.piece ++ read.rest = c :: text
  length_le : read.rest.length ≤ text.length

theorem reads_upTo {isMarkup : Bool} {state : Segmenter} {c : Char} {text rest : Text}
    (h : rest <:+ text) : (Step.mk isMarkup (upTo (c :: text) rest) rest state).Reads c text :=
  ⟨upTo_append (h.trans (List.suffix_cons _ _)), h.length_le⟩

theorem reads_passOrCarry {state : Segmenter} {c : Char} {text : Text} {rest? : Option Text}
    {carried : Mode} (h : ∀ rest, rest? = some rest → rest <:+ text) :
    (passOrCarry state (c :: text) rest? carried).Reads c text := by
  cases rest? with
  | none => exact ⟨List.append_nil _, Nat.zero_le _⟩
  | some rest => exact reads_upTo (h rest rfl)

theorem optionalArguments_suffix (text : Text) : optionalArguments text <:+ text := by
  fun_induction optionalArguments text with
  | case1 text rest h ih =>
    refine ih.trans (List.IsSuffix.trans ?_ (skipBlanks_suffix text))
    exact readBracket?_suffix h
  | case2 text => exact List.suffix_refl _

theorem rawArgument_suffix {text content rest : Text}
    (h : rawArgument text = .read content rest) : rest <:+ text := by
  unfold rawArgument at h
  split at h
  · next body hbody =>
    split at h
    · next r hr =>
      obtain ⟨_, rfl⟩ : _ ∧ r = rest := by simpa using h
      refine ((closeGroup_suffix hr).trans (List.suffix_cons '{' body)).trans ?_
      rw [← hbody]
      exact (optionalArguments_suffix _).trans (skipBlanks_suffix text)
    · simp at h
  · simp at h

theorem rawArguments_suffix {n : Nat} {text rest : Text}
    (h : rawArguments n text = .closed rest) : rest <:+ text := by
  induction n generalizing text with
  | zero =>
    obtain rfl : text = rest := by simpa [rawArguments] using h
    exact List.suffix_refl _
  | succ n ih =>
    simp only [rawArguments] at h
    split at h
    · obtain rfl : text = rest := by simpa using h
      exact List.suffix_refl _
    · next content r hr => exact (ih h).trans (rawArgument_suffix hr)
    · simp at h

theorem commandArguments_suffix {name : String} {count : Nat} {text rest : Text}
    (h : commandArguments name count text = .closed rest) : rest <:+ text := by
  unfold commandArguments at h
  split at h
  · split at h
    · obtain rfl : text = rest := by simpa using h
      exact List.suffix_refl _
    · next content r hr => exact (rawArguments_suffix h).trans (rawArgument_suffix hr)
    · simp at h
  · exact rawArguments_suffix h

theorem dropStar_suffix (text : Text) : dropStar text <:+ text := by
  unfold dropStar
  split
  · exact List.suffix_cons _ _
  · exact List.suffix_refl _

theorem definitionHead_suffix (text : Text) : definitionHead text <:+ text := by
  refine (List.dropWhile_suffix _).trans ?_
  split
  · next name h =>
    refine ((readControl_suffix name).trans (List.suffix_cons '\\' name)).trans ?_
    rw [← h]
    exact skipBlanks_suffix text
  · exact List.suffix_refl _

theorem dropEmptyGroup_suffix (text : Text) : dropEmptyGroup text <:+ text := by
  unfold dropEmptyGroup
  split
  · exact (List.suffix_cons _ _).trans (List.suffix_cons _ _)
  · exact List.suffix_refl _

theorem reads_command {state : Segmenter} {c : Char} {text rest : Text} {name : String}
    (h : rest <:+ text) : (command state (c :: text) name rest).Reads c text := by
  have hargs (count : Nat) (after : Text) (ha : after <:+ text) :
      (match commandArguments name count after with
        | .closed rest => passUpTo state (c :: text) rest
        | .unclosed depth =>
          ⟨true, c :: text, [], { state with mode := .raw depth }⟩ : Step).Reads c text := by
    split
    · next r hr => exact reads_upTo ((commandArguments_suffix hr).trans ha)
    · exact ⟨List.append_nil _, Nat.zero_le _⟩
  unfold command
  split
  next after count heq =>
  have hafter : after <:+ text := by
    split at heq
    · obtain ⟨rfl, rfl⟩ := Prod.mk.inj heq
      exact ((definitionHead_suffix _).trans (dropStar_suffix rest)).trans h
    · obtain ⟨rfl, rfl⟩ := Prod.mk.inj heq
      exact (dropStar_suffix rest).trans h
  have hopt := (optionalArguments_suffix after).trans hafter
  dsimp only
  split
  · next inner hinner =>
    split
    · refine reads_upTo (List.IsSuffix.trans ?_ hopt)
      have := skipBlanks_suffix (optionalArguments after)
      rw [hinner] at this
      exact (List.suffix_cons _ _).trans this
    · exact hargs count _ hopt
  · exact hargs count _ hopt

theorem reads_control (state : Segmenter) (text : Text) :
    (control state text).Reads '\\' text := by
  unfold control
  dsimp only
  split
  · next env body h =>
    refine reads_passOrCarry fun rest hrest => ?_
    have hbody : body <:+ text := by
      have heq := Verbatim.eq_append_of_begins? h
      have hne : env.opening ≠ [] := by cases env <;> decide
      obtain ⟨c, opening, hop⟩ := List.exists_cons_of_ne_nil hne
      rw [hop, List.cons_append] at heq
      exact ⟨opening, (List.cons.inj heq).2.symm⟩
    exact (Verbatim.end?_suffix hrest).trans hbody
  · have hread := readControl_suffix text
    split
    · next c rest h =>
      rw [h] at hread
      split
      · exact reads_upTo hread
      · split
        · exact reads_passOrCarry fun r hr => (MathDelimiter.close?_suffix hr).trans hread
        · split
          · exact reads_passOrCarry fun r hr => (MathDelimiter.close?_suffix hr).trans hread
          · exact reads_upTo hread
    · next rest h =>
      rw [h] at hread
      exact reads_upTo hread
    · next name rest h =>
      rw [h] at hread
      split
      · exact reads_upTo ((dropEmptyGroup_suffix rest).trans hread)
      · split
        · exact reads_upTo ((dropVerb_suffix rest).trans hread)
        · exact reads_command hread

theorem reads_dollar (state : Segmenter) (text : Text) : (dollar state text).Reads '$' text := by
  unfold dollar
  split
  · next body =>
    exact reads_passOrCarry fun r hr =>
      (MathDelimiter.close?_suffix hr).trans (List.suffix_cons '$' body)
  · exact reads_passOrCarry fun r hr => MathDelimiter.close?_suffix hr

/-- A step reads from the front of the text, and at least one character. -/
theorem reads_step (state : Segmenter) (c : Char) (text : Text) :
    (step state c text).Reads c text := by
  unfold step
  split
  · exact reads_control state text
  · exact ⟨rfl, Nat.le_refl _⟩
  · exact ⟨rfl, Nat.le_refl _⟩
  · exact ⟨rfl, Nat.le_refl _⟩
  · exact ⟨rfl, Nat.le_refl _⟩
  · exact ⟨rfl, Nat.le_refl _⟩
  · exact reads_upTo (dropComment_suffix text)
  · exact reads_dollar state text
  · split
    · exact ⟨congrArg (c :: ·) List.takeWhile_append_dropWhile,
        (List.dropWhile_suffix _).length_le⟩
    · exact ⟨rfl, Nat.le_refl _⟩

/-- The parts of a text, as the steps read them, and what is open after it. -/
def parts (state : Segmenter) (text : Text) : List Segment × Segmenter :=
  match text with
  | [] => ([], state)
  | c :: text =>
    let read := step state c text
    let after := parts read.state read.rest
    (read.segment state :: after.1, after.2)
termination_by text.length
decreasing_by exact Nat.lt_succ_of_le (reads_step state c text).length_le

end Segmenter

namespace Segment

/-- The text that segments make up. -/
def texts (segments : List Segment) : Text :=
  segments.flatMap Segment.text

@[simp] theorem texts_nil : texts [] = [] := rfl

@[simp] theorem texts_cons (segment : Segment) (segments : List Segment) :
    texts (segment :: segments) = segment.text ++ texts segments := rfl

@[simp] theorem texts_append (ss ts : List Segment) : texts (ss ++ ts) = texts ss ++ texts ts := by
  simp [texts]

/-- The segments with one more in front, joined to the first if their kinds agree. -/
def cons (segment : Segment) (segments : List Segment) : List Segment :=
  if segment.text.isEmpty then segments
  else
    match segments with
    | [] => [segment]
    | next :: rest =>
      if next.kind = segment.kind then ⟨segment.kind, segment.text ++ next.text⟩ :: rest
      else segment :: next :: rest

/-- The segments without empty ones, and neighbours of one kind joined. -/
def merge (segments : List Segment) : List Segment :=
  segments.foldr cons []

theorem texts_cons' (segment : Segment) (segments : List Segment) :
    texts (cons segment segments) = segment.text ++ texts segments := by
  unfold cons
  split
  · next h => simp [List.isEmpty_iff.mp h]
  · split
    · rfl
    · split <;> simp

theorem texts_merge (segments : List Segment) : texts (merge segments) = texts segments := by
  induction segments with
  | nil => rfl
  | cons segment segments ih =>
    rw [merge, List.foldr_cons, texts_cons', texts_cons, ← ih]
    rfl

/-- The kind of white space at an edge of running text: a line feed there is layout. -/
def edgeKind (blank : Text) (kind : Kind) : Kind :=
  if blank.contains '\n' then .markup else kind

/-- Running text with the white space at its edges set apart. -/
def trimEdges (segment : Segment) : List Segment :=
  if segment.kind = .markup then [segment]
  else
    let body := trim segment.text
    if body.isEmpty then [⟨edgeKind segment.text segment.kind, segment.text⟩]
    else
      let lead := leadingBlank segment.text
      let trail := trailingBlank (trimStart segment.text)
      [⟨edgeKind lead segment.kind, lead⟩, ⟨segment.kind, body⟩,
        ⟨edgeKind trail segment.kind, trail⟩]

theorem texts_trimEdges (segment : Segment) : texts segment.trimEdges = segment.text := by
  unfold trimEdges
  split
  · simp
  · dsimp only
    split
    · simp
    · have h := trimEnd_append_trailingBlank (trimStart segment.text)
      simp only [texts_cons, texts_nil, List.append_nil]
      rw [trim, h, leadingBlank_append_trimStart]

/-- The segments of a region from the parts that were read. -/
def ofParts (parts : List Segment) : List Segment :=
  merge ((merge parts).flatMap trimEdges)

theorem texts_ofParts (parts : List Segment) : texts (ofParts parts) = texts parts := by
  have h (segments : List Segment) : texts (segments.flatMap trimEdges) = texts segments := by
    induction segments with
    | nil => rfl
    | cons segment segments ih => simp [texts_trimEdges, ih]
  rw [ofParts, texts_merge, h, texts_merge]

end Segment

namespace Segmenter

/-- The segments of the next region's text, and what is open after it. -/
def split (state : Segmenter) (text : Text) : List Segment × Segmenter :=
  let resumed := resume state text
  let after := parts resumed.state resumed.rest
  (Segment.ofParts (resumed.segment state :: after.1), after.2)

theorem texts_parts (state : Segmenter) (text : Text) :
    Segment.texts (parts state text).1 = text := by
  fun_induction parts state text with
  | case1 => rfl
  | case2 state c text read after ih =>
    rw [Segment.texts_cons, ih]
    exact (reads_step state c text).append

theorem resume_append (state : Segmenter) (text : Text) :
    (resume state text).piece ++ (resume state text).rest = text := by
  have key {idle : Segmenter} {rest? : Option Text} {carried : Mode}
      (h : ∀ rest, rest? = some rest → rest <:+ text) :
      (passOrCarry idle text rest? carried).piece ++
        (passOrCarry idle text rest? carried).rest = text := by
    cases rest? with
    | none => exact List.append_nil _
    | some rest => exact upTo_append (h rest rfl)
  unfold resume
  dsimp only
  split
  · rfl
  · exact key fun r hr => MathDelimiter.close?_suffix hr
  · exact key fun r hr => Verbatim.end?_suffix hr
  · split
    · next h => exact upTo_append (closeGroup_suffix h)
    · exact List.append_nil _

/-- The segments of a region make up its text. -/
theorem split_append (state : Segmenter) (text : Text) :
    Segment.texts (split state text).1 = text := by
  rw [split, Segment.texts_ofParts, Segment.texts_cons, texts_parts]
  exact resume_append state text

end Segmenter

end Marginalia
