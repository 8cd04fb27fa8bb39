import Marginalia.Proofs.Relocation.Step

/-! # Lexemes

A step of the relocation pass reads one lexeme (`read`) and then acts on it (`State.act`).  What it
reads depends on the text alone; `step_eq` puts the two halves together.

`Lexes` gives the rules of reading without a reader: the shape of each lexeme, and what may not
follow it.  `Lexes.begins` and `lexes_of_read` say that the reader goes by these rules, so a
lexeme is read again wherever it stands, as long as nothing follows that would go on with it
(`Begins.replace`).

A note is passed over by the search for the end of a bracketed argument (`Begins.closes_note`), and
whether an argument closes behind a lexeme decides whether it closes before it (`Begins.closes_congr`).
-/
namespace Marginalia.Relocation

open Text Latex

variable {contexts : Contexts} {state : State}

/-- What the pass reads in one step. -/
inductive Lexeme where
  | comment
  /-- A control symbol, or a backslash at the end of the text. -/
  | escape
  /-- Inline verbatim text or a verbatim environment. -/
  | verbatim
  | command (name : String)
  | note
  /-- A note that lacks an argument. -/
  | brokenNote
  /-- The beginning of an environment. -/
  | opening (env : String)
  /-- The end of an environment. -/
  | ending (env : String)
  /-- A beginning or an end without a name. -/
  | nameless
  | left (delimiter : Delimiter)
  | right (delimiter : Delimiter)
  /-- A run of white space, and whether it is a paragraph break. -/
  | blanks (paragraph : Bool)
  | plain
  deriving DecidableEq, Repr

/-! ### Reading -/

/-- What a control word of the given name is, and what follows it. -/
def readWord (name : String) (rest : Text) : Lexeme × Text :=
  if name = "verb" then (.verbatim, dropVerb rest)
  else if name = "annot" then
    match noteEnd? rest with
    | none => (.brokenNote, rest)
    | some after => (.note, after)
  else if name = "begin" ∨ name = "end" then
    match environmentName? rest with
    | none => (.nameless, rest)
    | some (env, after) => (if name = "begin" then .opening env else .ending env, after)
  else (.command name, match rest with
    | '*' :: tail => tail
    | _ => rest)

/-- What a backslash begins, and what follows it. -/
def readEscape (text : Text) : Lexeme × Text :=
  match Verbatim.begins? ('\\' :: text) with
  | some (env, body) => (.verbatim, (env.end? body).getD [])
  | none =>
    match readControl text with
    | (.word name, rest) => readWord name rest
    | (_, rest) => (.escape, rest)

/-- What the character `c` begins, and what follows it. -/
def read (c : Char) (text : Text) : Lexeme × Text :=
  match c with
  | '%' => (.comment, dropComment text)
  | '\\' => readEscape text
  | '{' => (.left .brace, text)
  | '[' => (.left .bracket, text)
  | '}' => (.right .brace, text)
  | ']' => (.right .bracket, text)
  | _ =>
    if isTexBlank c then
      (.blanks (2 ≤ (c :: text.takeWhile isTexBlank).count '\n'), text.dropWhile isTexBlank)
    else (.plain, text)

/-! ### Acting -/

namespace State

/-- Tells of a note in the argument of a command that no table lists. -/
def warn (state : State) (contexts : Contexts) : State :=
  match state.unknownContext? contexts with
  | some command =>
    { state with warnings := .noteInUnclassified command state.offset :: state.warnings }
  | none => state

/-- A warning changes nothing but the warnings. -/
theorem exists_warn (state : State) (contexts : Contexts) :
    ∃ warnings, state.warn contexts = { state with warnings } := by
  unfold warn
  split
  · exact ⟨_, rfl⟩
  · exact ⟨state.warnings, rfl⟩

/-- What the pass does with a lexeme, given the text that spells it and the text behind it. -/
def act (contexts : Contexts) (state : State) (lexeme : Lexeme) (piece rest : Text) : Step :=
  match lexeme with
  | .comment => .next (state.emit piece) rest
  | .escape | .verbatim | .nameless | .plain => .next ((state.emit piece).awaiting none) rest
  | .command name => .next ((state.emit piece).awaiting (some name)) rest
  | .note =>
    if state.hold.isSome then .next ((state.lift piece).awaiting none) rest
    else .next (((state.warn contexts).emit piece).awaiting none) rest
  | .brokenNote => .failed (.malformedNote state.offset)
  | .opening env => .next ((state.emit piece).beginEnv contexts env) rest
  | .ending env => .next ((state.emit piece).endEnv env) rest
  | .left .brace => .next ((state.openFrame contexts .brace).emit piece) rest
  | .left .bracket =>
    if state.pending.isSome && (readBracket? ('[' :: rest)).isSome then
      .next ((state.openFrame contexts .bracket).emit piece) rest
    else .next ((state.emit piece).awaiting none) rest
  | .right delimiter => close state delimiter delimiter.right rest
  | .blanks paragraph =>
    .next (if paragraph then (state.emit piece).awaiting none else state.emit piece) rest

end State

theorem upTo_cons (c : Char) (text : Text) : upTo (c :: text) text = [c] :=
  upTo_append_right [c] text

theorem word_eq (state : State) (whole rest : Text) (name : String) :
    word contexts state whole name rest =
      state.act contexts (readWord name rest).1 (upTo whole (readWord name rest).2)
        (readWord name rest).2 := by
  unfold word readWord
  by_cases hverb : name = "verb"
  · rw [if_pos hverb, if_pos hverb]
    rfl
  rw [if_neg hverb, if_neg hverb]
  by_cases hannot : name = "annot"
  · rw [if_pos hannot, if_pos hannot]
    cases noteEnd? rest with
    | none => rfl
    | some after => rfl
  rw [if_neg hannot, if_neg hannot]
  by_cases henv : name = "begin" ∨ name = "end"
  · rw [if_pos henv, if_pos henv]
    cases environmentName? rest with
    | none => rfl
    | some read =>
      dsimp only
      by_cases hbegin : name = "begin"
      · rw [if_pos hbegin, if_pos hbegin]
        rfl
      · rw [if_neg hbegin, if_neg hbegin]
        rfl
  · rw [if_neg henv, if_neg henv]
    rfl

theorem control_eq (state : State) (text : Text) :
    control contexts state text =
      state.act contexts (readEscape text).1 (upTo ('\\' :: text) (readEscape text).2)
        (readEscape text).2 := by
  unfold control readEscape
  dsimp only
  cases Verbatim.begins? ('\\' :: text) with
  | some read => rfl
  | none =>
    dsimp only
    cases readControl text with
    | mk control rest =>
      cases control with
      | word name => exact word_eq state ('\\' :: text) rest name
      | symbol c => rfl
      | bare => rfl

theorem read_left (delimiter : Delimiter) (text : Text) :
    read delimiter.left text = (.left delimiter, text) := by
  cases delimiter <;> rfl

theorem read_right (delimiter : Delimiter) (text : Text) :
    read delimiter.right text = (.right delimiter, text) := by
  cases delimiter <;> rfl

theorem read_escape (text : Text) : read '\\' text = readEscape text := rfl

theorem read_of_plain {c : Char} (h : Plain c) (text : Text) :
    read c text =
      if isTexBlank c then
        (.blanks (2 ≤ (c :: text.takeWhile isTexBlank).count '\n'), text.dropWhile isTexBlank)
      else (.plain, text) := by
  obtain ⟨⟨_, _, _, _⟩, _, _⟩ := h
  unfold read
  split
  any_goals contradiction
  rfl

/-- **A step reads a lexeme and acts on it.** -/
theorem step_eq (state : State) (c : Char) (text : Text) :
    step contexts state c text =
      (state.settle c).act contexts (read c text).1 (upTo (c :: text) (read c text).2)
        (read c text).2 := by
  by_cases hplain : Plain c
  · rw [step_plain hplain, read_of_plain hplain]
    by_cases hblank : isTexBlank c = true
    · have hpiece : upTo (c :: text) (text.dropWhile isTexBlank) =
          c :: text.takeWhile isTexBlank := by
        rw [← upTo_append_right (c :: text.takeWhile isTexBlank) (text.dropWhile isTexBlank),
          List.cons_append, List.takeWhile_append_dropWhile]
      rw [if_pos hblank, if_pos hblank, hpiece]
      simp only [State.act, decide_eq_true_eq]
    · rw [if_neg hblank, if_neg hblank, upTo_cons]
      rfl
  unfold step
  dsimp only
  split
  · rfl
  · exact control_eq _ text
  · rw [show read '\x7b' text = _ from read_left .brace text, upTo_cons]
    rfl
  · rw [show read '[' text = _ from read_left .bracket text, upTo_cons]
    rfl
  · rfl
  · rfl
  · next hcomment hescape hleft hleftBracket hright hrightBracket =>
    exact absurd ⟨⟨hescape, hleft, hright, hcomment⟩, hleftBracket, hrightBracket⟩ hplain

/-! ### The rules of reading -/

/-- A character that goes on with a control word. -/
def extendsWord (c : Char) : Bool :=
  c.isAlpha || c == '*'

theorem stops_isAlpha {text : Text} (h : Stops extendsWord text) : Stops Char.isAlpha text := by
  intro c hc
  have hstop := h c hc
  rw [extendsWord, Bool.or_eq_false_iff] at hstop
  exact hstop.1

/-- The rules of reading: `Lexes lexeme piece rest` says that `piece`, in front of `rest`, spells
the lexeme.  Verbatim text and what is malformed have no rule. -/
inductive Lexes : Lexeme → Text → Text → Prop
  | comment {line rest : Text} (hline : ∀ c ∈ line, c ≠ '\n') :
      Lexes .comment ('%' :: (line ++ ['\n'])) rest
  | openComment {line : Text} (hline : ∀ c ∈ line, c ≠ '\n') : Lexes .comment ('%' :: line) []
  | escape {c : Char} {rest : Text} (hc : c.isAlpha = false) : Lexes .escape ['\\', c] rest
  | bare : Lexes .escape ['\\'] []
  | command {name : String} {rest : Text} (hname : CommandName name)
      (hrest : Stops extendsWord rest) : Lexes (.command name) ('\\' :: name.toList) rest
  | starred {name : String} {rest : Text} (hname : CommandName name) :
      Lexes (.command name) ('\\' :: (name.toList ++ ['*'])) rest
  | note {args rest : Text} (hargs : ∀ rest, noteEnd? (args ++ rest) = some rest) :
      Lexes .note ('\\' :: ("annot".toList ++ args)) rest
  | opening {env : String} {args rest : Text}
      (hargs : ∀ rest, environmentName? (args ++ rest) = some (env, rest))
      (hverbatim : ∀ rest, Verbatim.begins? ('\\' :: ("begin".toList ++ (args ++ rest))) = none) :
      Lexes (.opening env) ('\\' :: ("begin".toList ++ args)) rest
  | ending {env : String} {args rest : Text}
      (hargs : ∀ rest, environmentName? (args ++ rest) = some (env, rest)) :
      Lexes (.ending env) ('\\' :: ("end".toList ++ args)) rest
  | left {delimiter : Delimiter} {rest : Text} : Lexes (.left delimiter) [delimiter.left] rest
  | right {delimiter : Delimiter} {rest : Text} : Lexes (.right delimiter) [delimiter.right] rest
  | blanks {run rest : Text} (hne : run ≠ []) (hrun : ∀ c ∈ run, isTexBlank c = true)
      (hrest : Stops isTexBlank rest) : Lexes (.blanks (2 ≤ run.count '\n')) run rest
  | plain {c : Char} {rest : Text} (hc : Plain c) (hblank : isTexBlank c = false) :
      Lexes .plain [c] rest

/-- The piece, in front of the rest, is read as the lexeme. -/
def Begins (lexeme : Lexeme) (piece rest : Text) : Prop :=
  ∃ c text, piece ++ rest = c :: text ∧ read c text = (lexeme, rest)

/-! ### Arguments of control words -/

theorem stops_of_skipBlanks {text rest : Text} (h : skipBlanks text = '{' :: rest) :
    Stops Char.isAlpha text := by
  obtain ⟨front, rfl, hfront, -⟩ := skipBlanks_replace h
  cases front with
  | nil => exact stops_cons.mpr (by decide)
  | cons c front =>
    have hc := hfront c List.mem_cons_self
    rw [List.cons_append, stops_cons]
    simp only [isTexBlank, Bool.or_eq_true, beq_iff_eq] at hc
    rcases hc with ((rfl | rfl) | rfl) | rfl <;> decide

/-- A group behind white space is read whatever follows it. -/
theorem readGroup?_skipBlanks_replace {text body rest : Text}
    (h : readGroup? (skipBlanks text) = some (body, rest)) :
    ∃ front, text = front ++ rest ∧ Stops Char.isAlpha text ∧
      ∀ rest', readGroup? (skipBlanks (front ++ rest')) = some (body, rest') := by
  obtain ⟨inner, hskip, hinner⟩ := readGroup?_replace h
  obtain ⟨blanks, htext, -, hblanks⟩ := skipBlanks_replace hskip
  refine ⟨blanks ++ '{' :: inner, ?_, stops_of_skipBlanks hskip, fun rest' => ?_⟩
  · rw [htext, List.append_assoc, List.cons_append]
  · rw [List.append_assoc, List.cons_append, hblanks]
    exact (hinner rest').1

/-- The arguments of a note are read whatever follows them. -/
theorem noteEnd?_replace {text rest : Text} (h : noteEnd? text = some rest) :
    ∃ args, text = args ++ rest ∧ Stops Char.isAlpha text ∧
      ∀ rest', noteEnd? (args ++ rest') = some rest' := by
  unfold noteEnd? at h
  split at h
  · next key mid hkey =>
    obtain ⟨⟨body, rest⟩, hbody, rfl⟩ := Option.map_eq_some_iff.mp h
    obtain ⟨front, rfl, hstops, hfront⟩ := readGroup?_skipBlanks_replace hkey
    obtain ⟨front', rfl, -, hfront'⟩ := readGroup?_skipBlanks_replace hbody
    refine ⟨front ++ front', (List.append_assoc ..).symm, hstops, fun rest' => ?_⟩
    rw [noteEnd?, List.append_assoc, hfront]
    dsimp only
    rw [hfront']
    rfl
  · cases h

/-- The name of an environment is read whatever follows it. -/
theorem environmentName?_replace {text rest : Text} {env : String}
    (h : environmentName? text = some (env, rest)) :
    ∃ args, text = args ++ rest ∧ Stops Char.isAlpha text ∧
      ∀ rest', environmentName? (args ++ rest') = some (env, rest') := by
  obtain ⟨⟨name, rest⟩, hname, heq⟩ := Option.map_eq_some_iff.mp h
  obtain ⟨rfl, rfl⟩ := Prod.mk.inj heq
  obtain ⟨args, htext, hstops, hargs⟩ := readGroup?_skipBlanks_replace hname
  refine ⟨args, htext, hstops, fun rest' => ?_⟩
  rw [environmentName?, hargs]
  rfl

/-- Whether a verbatim environment begins here does not depend on what follows the name. -/
theorem begins?_replace {args rest : Text} {env : String}
    (hargs : ∀ rest, environmentName? (args ++ rest) = some (env, rest))
    (h : Verbatim.begins? ('\\' :: ("begin".toList ++ (args ++ rest))) = none) (rest' : Text) :
    Verbatim.begins? ('\\' :: ("begin".toList ++ (args ++ rest'))) = none := by
  refine Verbatim.begins?_begin_eq_none_iff.mpr fun v after hafter => ?_
  -- The group that follows is the name of the verbatim environment, so the arguments end with it.
  have hname : readGroup? ('{' :: (v.name ++ '}' :: after)) = some (v.name, after) :=
    readGroup?_append (by cases v <;> decide) after
  have hread := hargs rest'
  rw [hafter, environmentName?, show skipBlanks ('{' :: (v.name ++ '}' :: after)) =
    '{' :: (v.name ++ '}' :: after) from rfl, hname, Option.map_some, Option.some.injEq] at hread
  obtain ⟨-, rfl⟩ := Prod.mk.inj hread
  have hcancel : '{' :: (v.name ++ ['}']) = args := by
    refine @List.append_cancel_right _ _ after _ ?_
    rw [hafter, List.cons_append, List.append_assoc, List.singleton_append]
  refine Verbatim.begins?_begin_eq_none_iff.mp h v rest ?_
  rw [← hcancel, List.cons_append, List.append_assoc, List.singleton_append]

/-! ### What is left -/

theorem readWord_suffix (name : String) (rest : Text) : (readWord name rest).2 <:+ rest := by
  unfold readWord
  split
  · exact dropVerb_suffix rest
  split
  · split
    · exact List.suffix_refl rest
    · next hend =>
      obtain ⟨args, htext, -⟩ := noteEnd?_replace hend
      exact ⟨args, htext.symm⟩
  split
  · split
    · exact List.suffix_refl rest
    · next hname =>
      obtain ⟨args, htext, -⟩ := environmentName?_replace hname
      exact ⟨args, htext.symm⟩
  · dsimp only
    split
    · exact List.suffix_cons _ _
    · exact List.suffix_refl rest

theorem readEscape_suffix (text : Text) : (readEscape text).2 <:+ text := by
  unfold readEscape
  split
  · next env body hbegins =>
    have htext := Verbatim.eq_append_of_begins? hbegins
    rw [Verbatim.opening_append, List.cons.injEq] at htext
    have hbody : body <:+ text := by
      refine ⟨"begin".toList ++ '\x7b' :: (env.name ++ ['}']), ?_⟩
      rw [htext.2, List.append_assoc, List.cons_append, List.append_assoc, List.singleton_append]
    cases hend : env.end? body with
    | none => exact List.nil_suffix
    | some after => exact (Verbatim.end?_suffix hend).trans hbody
  · have hsuffix := readControl_suffix text
    split
    · next name rest hread =>
      rw [hread] at hsuffix
      exact (readWord_suffix name rest).trans hsuffix
    · next rest _ hread =>
      rw [hread] at hsuffix
      exact hsuffix

theorem read_suffix (c : Char) (text : Text) : (read c text).2 <:+ text := by
  unfold read
  split
  · exact dropComment_suffix text
  · exact readEscape_suffix text
  · exact List.suffix_refl text
  · exact List.suffix_refl text
  · exact List.suffix_refl text
  · exact List.suffix_refl text
  · split
    · exact List.dropWhile_suffix _
    · exact List.suffix_refl text

/-! ### The reader goes by the rules -/

theorem begins_escape {word rest : Text} {lexeme : Lexeme}
    (h : readEscape (word ++ rest) = (lexeme, rest)) : Begins lexeme ('\\' :: word) rest :=
  ⟨'\\', word ++ rest, rfl, h⟩

theorem readEscape_word {name : String} (hne : name ≠ "")
    (hletters : ∀ c ∈ name.toList, c.isAlpha = true) {rest : Text} (hrest : Stops Char.isAlpha rest)
    (hverbatim : Verbatim.begins? ('\\' :: (name.toList ++ rest)) = none) :
    readEscape (name.toList ++ rest) = readWord name rest := by
  rw [readEscape, hverbatim]
  dsimp only
  rw [readControl_word hne hletters hrest]

theorem readWord_command {name : String} (hname : CommandName name) (rest : Text) :
    readWord name rest = (.command name, match rest with
      | '*' :: tail => tail
      | _ => rest) := by
  unfold readWord
  rw [if_neg hname.verb, if_neg hname.annot, if_neg (fun h => h.elim hname.begin hname.«end»)]

theorem readEscape_annot {rest : Text} (hrest : Stops Char.isAlpha rest) :
    readEscape ("annot".toList ++ rest) = match noteEnd? rest with
      | none => (.brokenNote, rest)
      | some after => (.note, after) := by
  rw [readEscape_word (by decide) (by decide) hrest
    (Verbatim.begins?_word (by decide) (by decide) hrest)]
  unfold readWord
  rw [if_neg (by decide), if_pos rfl]

theorem readWord_environment {name : String} (hname : name = "begin" ∨ name = "end") (rest : Text) :
    readWord name rest = match environmentName? rest with
      | none => (.nameless, rest)
      | some (env, after) => (if name = "begin" then .opening env else .ending env, after) := by
  have hother : name ≠ "verb" ∧ name ≠ "annot" := by
    rcases hname with rfl | rfl <;> exact ⟨by decide, by decide⟩
  unfold readWord
  rw [if_neg hother.1, if_neg hother.2, if_pos hname]

/-- What is spelled by the rules is read as they say. -/
theorem Lexes.begins {lexeme : Lexeme} {piece rest : Text} (h : Lexes lexeme piece rest) :
    Begins lexeme piece rest := by
  cases h with
  | @comment line _ hline =>
    refine ⟨'%', line ++ '\n' :: rest, ?_, ?_⟩
    · rw [List.cons_append, List.append_assoc, List.singleton_append]
    · change (Lexeme.comment, dropComment _) = _
      rw [(dropComment_line hline).2]
  | @openComment line hline =>
    refine ⟨'%', line, by rw [List.append_nil], ?_⟩
    change (Lexeme.comment, dropComment _) = _
    rw [(dropComment_line hline).1]
  | @escape c _ hc =>
    refine @begins_escape [c] rest _ ?_
    have hverbatim : Verbatim.begins? ('\\' :: ([c] ++ rest)) = none :=
      Verbatim.begins?_symbol hc rest
    rw [readEscape, hverbatim]
    dsimp only
    rw [List.singleton_append, readControl, if_neg (by simp [hc])]
  | bare => exact ⟨'\\', [], rfl, by decide⟩
  | @command name _ hname hrest =>
    refine begins_escape ?_
    have hstops := stops_isAlpha hrest
    rw [readEscape_word hname.nonempty hname.letters hstops
      (Verbatim.begins?_word hname.letters hname.begin hstops), readWord_command hname]
    split
    · cases stops_cons.mp hrest
    · rfl
  | @starred name _ hname =>
    have hstops : Stops Char.isAlpha ('*' :: rest) := stops_cons.mpr (by decide)
    refine ⟨'\\', name.toList ++ '*' :: rest, ?_, ?_⟩
    · rw [List.cons_append, List.append_assoc, List.singleton_append]
    · rw [read_escape, readEscape_word hname.nonempty hname.letters hstops
        (Verbatim.begins?_word hname.letters hname.begin hstops), readWord_command hname]
      rfl
  -- What follows the arguments does not change where they end.
  | @note args _ hargs =>
    obtain ⟨-, -, hstops, -⟩ := noteEnd?_replace (hargs rest)
    refine ⟨'\\', "annot".toList ++ (args ++ rest), by
      rw [List.cons_append, List.append_assoc], ?_⟩
    rw [read_escape, readEscape_annot hstops, hargs]
  | @opening env args _ hargs hverbatim =>
    obtain ⟨-, -, hstops, -⟩ := environmentName?_replace (hargs rest)
    refine ⟨'\\', "begin".toList ++ (args ++ rest), by
      rw [List.cons_append, List.append_assoc], ?_⟩
    rw [read_escape, readEscape_word (by decide) (by decide) hstops (hverbatim rest),
      readWord_environment (.inl rfl), hargs]
    rfl
  | @ending env args _ hargs =>
    obtain ⟨-, -, hstops, -⟩ := environmentName?_replace (hargs rest)
    refine ⟨'\\', "end".toList ++ (args ++ rest), by
      rw [List.cons_append, List.append_assoc], ?_⟩
    rw [read_escape, readEscape_word (by decide) (by decide) hstops
      (Verbatim.begins?_word (by decide) (by decide) hstops), readWord_environment (.inr rfl), hargs]
    rfl
  | @left delimiter => exact ⟨delimiter.left, rest, rfl, read_left delimiter rest⟩
  | @right delimiter => exact ⟨delimiter.right, rest, rfl, read_right delimiter rest⟩
  | blanks hne hrun hrest =>
    cases piece with
    | nil => exact absurd rfl hne
    | cons c run =>
      have hc := hrun c List.mem_cons_self
      obtain ⟨htake, hdrop⟩ :=
        takeWhile_append_stop (fun d hd => hrun d (List.mem_cons_of_mem _ hd)) hrest
      refine ⟨c, run ++ rest, rfl, ?_⟩
      rw [read_of_plain (plain_of_isTexBlank hc), if_pos hc, htake, hdrop]
  | @plain c _ hc hblank =>
    refine ⟨c, rest, rfl, ?_⟩
    rw [read_of_plain hc, if_neg (by simp [hblank])]

/-- A lexeme that the rules cover. -/
def Lexeme.Regular (lexeme : Lexeme) : Prop :=
  lexeme ≠ .verbatim ∧ lexeme ≠ .brokenNote ∧ lexeme ≠ .nameless

/-- What is read of a control word is spelled by the rules. -/
theorem lexes_of_readWord {name : String} {rest after : Text} {lexeme : Lexeme}
    (hne : name ≠ "") (hletters : ∀ c ∈ name.toList, c.isAlpha = true)
    (hrest : Stops Char.isAlpha rest)
    (hverbatim : Verbatim.begins? ('\\' :: (name.toList ++ rest)) = none)
    (hread : readWord name rest = (lexeme, after)) (hregular : lexeme.Regular) :
    ∃ piece, '\\' :: (name.toList ++ rest) = piece ++ after ∧ Lexes lexeme piece after := by
  unfold readWord at hread
  by_cases hverb : name = "verb"
  · rw [if_pos hverb] at hread
    exact absurd (Prod.mk.inj hread).1.symm hregular.1
  rw [if_neg hverb] at hread
  by_cases hannot : name = "annot"
  · rw [if_pos hannot] at hread
    cases hend : noteEnd? rest with
    | none =>
      rw [hend] at hread
      exact absurd (Prod.mk.inj hread).1.symm hregular.2.1
    | some r =>
      rw [hend] at hread
      obtain ⟨rfl, rfl⟩ := Prod.mk.inj hread
      obtain ⟨args, rfl, -, hargs⟩ := noteEnd?_replace hend
      exact ⟨_, by rw [hannot, List.cons_append, List.append_assoc], .note hargs⟩
  rw [if_neg hannot] at hread
  by_cases henv : name = "begin" ∨ name = "end"
  · rw [if_pos henv] at hread
    cases hname : environmentName? rest with
    | none =>
      rw [hname] at hread
      exact absurd (Prod.mk.inj hread).1.symm hregular.2.2
    | some read =>
      obtain ⟨env, r⟩ := read
      rw [hname] at hread
      dsimp only at hread
      obtain ⟨args, rfl, -, hargs⟩ := environmentName?_replace hname
      by_cases hbegin : name = "begin"
      · rw [if_pos hbegin] at hread
        obtain ⟨rfl, rfl⟩ := Prod.mk.inj hread
        rw [hbegin] at hverbatim
        exact ⟨_, by rw [hbegin, List.cons_append, List.append_assoc],
          .opening hargs (begins?_replace hargs hverbatim)⟩
      · rw [if_neg hbegin] at hread
        obtain ⟨rfl, rfl⟩ := Prod.mk.inj hread
        exact ⟨_, by rw [henv.resolve_left hbegin, List.cons_append, List.append_assoc],
          .ending hargs⟩
  rw [if_neg henv] at hread
  have hname : CommandName name :=
    ⟨hne, hletters, hverb, hannot, fun h => henv (.inl h), fun h => henv (.inr h)⟩
  obtain ⟨rfl, hafter⟩ := Prod.mk.inj hread
  split at hafter
  · next tail =>
    subst hafter
    refine ⟨'\\' :: (name.toList ++ ['*']), ?_, .starred hname⟩
    rw [List.cons_append, List.append_assoc, List.singleton_append]
  -- Neither a letter nor a star follows, so the name ends the lexeme.
  · next hstar =>
    subst hafter
    refine ⟨'\\' :: name.toList, rfl, .command hname ?_⟩
    intro c hc
    rw [extendsWord, hrest c hc, Bool.false_or, beq_eq_false_iff_ne]
    rintro rfl
    cases rest with
    | nil => cases hc
    | cons d rest => exact hstar rest (by rw [List.head?_cons, Option.mem_some] at hc; rw [hc])

/-- What is read is spelled by the rules. -/
theorem lexes_of_read {c : Char} {text rest : Text} {lexeme : Lexeme}
    (hread : read c text = (lexeme, rest)) (hregular : lexeme.Regular) :
    ∃ piece, c :: text = piece ++ rest ∧ Lexes lexeme piece rest := by
  by_cases hplain : Plain c
  · rw [read_of_plain hplain] at hread
    by_cases hblank : isTexBlank c = true
    · rw [if_pos hblank] at hread
      obtain ⟨rfl, rfl⟩ := Prod.mk.inj hread
      refine ⟨c :: text.takeWhile isTexBlank, ?_, .blanks (List.cons_ne_nil _ _) ?_
        (stops_dropWhile _ _)⟩
      · rw [List.cons_append, List.takeWhile_append_dropWhile]
      · exact List.forall_mem_cons.mpr ⟨hblank, List.all_eq_true.mp List.all_takeWhile⟩
    · rw [if_neg hblank] at hread
      obtain ⟨rfl, rfl⟩ := Prod.mk.inj hread
      exact ⟨[c], rfl, .plain hplain (by simpa using hblank)⟩
  unfold read at hread
  split at hread
  · obtain ⟨rfl, rfl⟩ := Prod.mk.inj hread
    obtain ⟨line, hline, htext | ⟨htext, hnil⟩⟩ := dropComment_cases text
    · refine ⟨'%' :: (line ++ ['\n']), ?_, .comment hline⟩
      rw [List.cons_append, List.append_assoc, List.singleton_append, ← htext]
    · rw [hnil, htext]
      exact ⟨'%' :: line, by rw [List.append_nil], .openComment hline⟩
  · unfold readEscape at hread
    cases hverbatim : Verbatim.begins? ('\\' :: text) with
    | some v =>
      rw [hverbatim] at hread
      exact absurd (Prod.mk.inj hread).1.symm hregular.1
    | none =>
      rw [hverbatim] at hread
      dsimp only at hread
      rcases readControl_cases text with ⟨name, r, hr, rfl, hne, hletters, hstops⟩ |
        ⟨d, r, hr, rfl, hd⟩ | ⟨hr, rfl⟩
      · rw [hr] at hread
        exact lexes_of_readWord hne hletters hstops hverbatim hread hregular
      · rw [hr] at hread
        obtain ⟨rfl, rfl⟩ := Prod.mk.inj hread
        exact ⟨['\\', d], rfl, .escape hd⟩
      · rw [hr] at hread
        obtain ⟨rfl, rfl⟩ := Prod.mk.inj hread
        exact ⟨['\\'], rfl, .bare⟩
  · obtain ⟨rfl, rfl⟩ := Prod.mk.inj hread
    exact ⟨['\x7b'], rfl, @Lexes.left .brace text⟩
  · obtain ⟨rfl, rfl⟩ := Prod.mk.inj hread
    exact ⟨['['], rfl, @Lexes.left .bracket text⟩
  · obtain ⟨rfl, rfl⟩ := Prod.mk.inj hread
    exact ⟨['}'], rfl, @Lexes.right .brace text⟩
  · obtain ⟨rfl, rfl⟩ := Prod.mk.inj hread
    exact ⟨[']'], rfl, @Lexes.right .bracket text⟩
  · next hcomment hescape hleft hleftBracket hright hrightBracket =>
    exact absurd ⟨⟨hescape, hleft, hright, hcomment⟩, hleftBracket, hrightBracket⟩ hplain

theorem Begins.lexes {lexeme : Lexeme} {piece rest : Text} (h : Begins lexeme piece rest)
    (hregular : lexeme.Regular) : Lexes lexeme piece rest := by
  obtain ⟨c, text, htext, hread⟩ := h
  obtain ⟨piece', hpiece', hlexes⟩ := lexes_of_read hread hregular
  obtain rfl : piece = piece' := List.append_cancel_right (htext.trans hpiece')
  exact hlexes

theorem begins_read (c : Char) (text : Text) :
    Begins (read c text).1 (upTo (c :: text) (read c text).2) (read c text).2 :=
  ⟨c, text, upTo_append ((read_suffix c text).trans (List.suffix_cons c text)), rfl⟩

/-! ### Lexemes and what follows -/

/-- The lexeme that the piece spells is complete: it does not go on to the end of the text, and
the search for the end of an argument sees in it what the pass does. -/
def Lexeme.Shut (lexeme : Lexeme) (piece : Text) : Prop :=
  match lexeme with
  | .comment => piece.getLast? = some '\n'
  | .escape => piece ≠ ['\\']
  | .verbatim => ∀ rest, Begins .verbatim piece rest ∧
      ∀ depth, Closes depth (piece ++ rest) ↔ Closes depth rest
  | .brokenNote | .nameless => False
  | _ => True

/-- The text does not go on with the lexeme that the piece spells. -/
def Lexeme.Stops (lexeme : Lexeme) (piece rest : Text) : Prop :=
  match lexeme with
  | .command _ => piece.getLast? = some '*' ∨ Text.Stops extendsWord rest
  | .blanks _ => Text.Stops isTexBlank rest
  | _ => True

theorem Lexeme.Shut.regular {lexeme : Lexeme} {piece : Text} (h : lexeme.Shut piece)
    (hverbatim : lexeme ≠ .verbatim) : lexeme.Regular := by
  refine ⟨hverbatim, ?_, ?_⟩
  · rintro rfl
    exact h
  · rintro rfl
    exact h

/-- **A lexeme is read again wherever it stands**, unless what follows goes on with it. -/
theorem Begins.replace {lexeme : Lexeme} {piece rest rest' : Text} (h : Begins lexeme piece rest)
    (hshut : lexeme.Shut piece) (hstops : lexeme.Stops piece rest') :
    Begins lexeme piece rest' := by
  by_cases hverbatim : lexeme = .verbatim
  · subst hverbatim
    exact (hshut rest').1
  cases h.lexes (hshut.regular hverbatim) with
  | comment hline => exact (Lexes.comment hline).begins
  | openComment hline =>
    rcases List.mem_cons.mp (List.mem_of_getLast? hshut) with heq | hmem
    · exact absurd heq (by decide)
    · exact absurd rfl (hline _ hmem)
  | escape hc => exact (Lexes.escape hc).begins
  | bare => exact absurd rfl hshut
  | @command name _ hname hrest =>
    refine (Lexes.command hname ?_).begins
    refine hstops.resolve_left fun hlast => ?_
    rcases List.mem_cons.mp (List.mem_of_getLast? hlast) with heq | hmem
    · exact absurd heq (by decide)
    · exact absurd (hname.letters _ hmem) (by decide)
  | starred hname => exact (Lexes.starred hname).begins
  | note hargs => exact (Lexes.note hargs).begins
  | opening hargs hnone => exact (Lexes.opening hargs hnone).begins
  | ending hargs => exact (Lexes.ending hargs).begins
  | left => exact Lexes.left.begins
  | right => exact Lexes.right.begins
  | blanks hne hrun hrest => exact (Lexes.blanks hne hrun hstops).begins
  | plain hc hblank => exact (Lexes.plain hc hblank).begins

/-! ### The search for the end of an argument -/

theorem closes_readGroup? {text body rest : Text}
    (h : readGroup? (skipBlanks text) = some (body, rest)) (depth : Nat) :
    Closes depth text ↔ Closes depth rest := by
  obtain ⟨inner, hskip, hinner⟩ := readGroup?_replace h
  obtain ⟨blanks, rfl, hblanks, -⟩ := skipBlanks_replace hskip
  rw [closes_blanks hblanks, closes_group (hinner rest).2]

theorem closes_noteEnd? {text rest : Text} (h : noteEnd? text = some rest) (depth : Nat) :
    Closes depth text ↔ Closes depth rest := by
  unfold noteEnd? at h
  split at h
  · next key mid hkey =>
    obtain ⟨⟨body, rest⟩, hbody, rfl⟩ := Option.map_eq_some_iff.mp h
    rw [closes_readGroup? hkey, closes_readGroup? hbody]
  · cases h

theorem closes_environmentName? {text rest : Text} {env : String}
    (h : environmentName? text = some (env, rest)) (depth : Nat) :
    Closes depth text ↔ Closes depth rest := by
  obtain ⟨⟨name, rest⟩, hname, heq⟩ := Option.map_eq_some_iff.mp h
  obtain ⟨-, rfl⟩ := Prod.mk.inj heq
  exact closes_readGroup? hname depth

/-- In the text behind the lexeme, what must close for the argument to close. -/
def Lexeme.ClosesBehind (lexeme : Lexeme) (depth : Nat) (rest : Text) : Prop :=
  match lexeme, depth with
  | .left .brace, depth => Closes (depth + 1) rest
  | .right .brace, 0 => False
  | .right .brace, depth + 1 => Closes depth rest
  | .right .bracket, 0 => True
  | _, depth => Closes depth rest

theorem Lexes.closes_iff {lexeme : Lexeme} {piece rest : Text} (h : Lexes lexeme piece rest)
    (depth : Nat) : Closes depth (piece ++ rest) ↔ lexeme.ClosesBehind depth rest := by
  cases h with
  | comment hline =>
    rw [List.cons_append, List.append_assoc, List.singleton_append, closes_comment,
      (dropComment_line hline).2]
    rfl
  | openComment hline =>
    rw [List.append_nil, closes_comment, (dropComment_line hline).1]
    rfl
  | escape hc =>
    rw [List.cons_append, List.singleton_append, closes_escape, readControl, if_neg (by simp [hc])]
    rfl
  | bare =>
    rw [List.append_nil, closes_escape]
    rfl
  | command hname hrest =>
    rw [List.cons_append, closes_word hname.nonempty hname.letters (stops_isAlpha hrest)]
    rfl
  | starred hname =>
    rw [List.cons_append, List.append_assoc, List.singleton_append,
      closes_word hname.nonempty hname.letters (stops_cons.mpr (by decide)),
      closes_cons ⟨by decide, by decide, by decide, by decide⟩ (by decide)]
    rfl
  -- The arguments of a note and of an environment are whole groups, so no bracket in them counts.
  | note hargs =>
    obtain ⟨-, -, hstops, -⟩ := noteEnd?_replace (hargs rest)
    rw [List.cons_append, List.append_assoc, closes_word (by decide) (by decide) hstops,
      closes_noteEnd? (hargs rest)]
    rfl
  | opening hargs hnone =>
    obtain ⟨-, -, hstops, -⟩ := environmentName?_replace (hargs rest)
    rw [List.cons_append, List.append_assoc, closes_word (by decide) (by decide) hstops,
      closes_environmentName? (hargs rest)]
    rfl
  | ending hargs =>
    obtain ⟨-, -, hstops, -⟩ := environmentName?_replace (hargs rest)
    rw [List.cons_append, List.append_assoc, closes_word (by decide) (by decide) hstops,
      closes_environmentName? (hargs rest)]
    rfl
  | @left delimiter =>
    cases delimiter with
    | brace => exact closes_left depth rest
    | bracket => exact closes_cons ⟨by decide, by decide, by decide, by decide⟩ (by decide) depth rest
  | @right delimiter =>
    cases delimiter with
    | brace =>
      cases depth with
      | zero => exact iff_false_intro (not_closes_zero_right rest)
      | succ depth => exact closes_succ_right depth rest
    | bracket =>
      cases depth with
      | zero => exact iff_true_intro (closes_zero_rightBracket rest)
      | succ depth => exact closes_succ_rightBracket depth rest
  | blanks hne hrun hrest => exact closes_blanks hrun depth rest
  | plain hc hblank => exact closes_cons hc.toInert hc.rightBracket depth rest

/-- A note is passed over. -/
theorem Begins.closes_note {piece rest : Text} (h : Begins .note piece rest) (depth : Nat) :
    Closes depth (piece ++ rest) ↔ Closes depth rest :=
  (h.lexes ⟨by decide, by decide, by decide⟩).closes_iff depth

/-- Whether an argument closes depends on what is behind a lexeme only in whether it closes
there. -/
theorem Begins.closes_congr {lexeme : Lexeme} {piece rest rest' : Text}
    (h : Begins lexeme piece rest) (hshut : lexeme.Shut piece) (hstops : lexeme.Stops piece rest')
    (hrest : ∀ depth, Closes depth rest ↔ Closes depth rest') (depth : Nat) :
    Closes depth (piece ++ rest) ↔ Closes depth (piece ++ rest') := by
  by_cases hverbatim : lexeme = .verbatim
  · subst hverbatim
    rw [(hshut rest).2, (hshut rest').2, hrest]
  have hregular : lexeme.Regular := hshut.regular hverbatim
  rw [(h.lexes hregular).closes_iff, ((h.replace hshut hstops).lexes hregular).closes_iff]
  unfold Lexeme.ClosesBehind
  split
  · exact hrest _
  · rfl
  · exact hrest _
  · rfl
  · exact hrest _

end Marginalia.Relocation
