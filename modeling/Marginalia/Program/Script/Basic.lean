import Marginalia.Text.Basic

/-! # Scripts

A script is a list of entries; an entry is a pipeline of commands with a condition on what came
before.  A command is a simple one, made of words, or joins scripts: in a group, in a choice, or in
a loop.  Words are lists of parts, since quoted text, parameters and the outputs of other scripts
may stand side by side in one word.
-/
namespace Marginalia.Program

/-- What is put in the place of the value of a parameter.  An operand is the text of a word. -/
inductive Change where
  | unchanged
  /-- The number of its characters. -/
  | length
  /-- The operand, if the value is missing. -/
  | orElse (countsEmpty : Bool) (operand : Text)
  /-- The operand, if the value is missing, which also becomes the value. -/
  | orAssign (countsEmpty : Bool) (operand : Text)
  /-- A fault, if the value is missing. -/
  | orFail (countsEmpty : Bool) (operand : Text)
  /-- The operand, unless the value is missing. -/
  | ifPresent (countsEmpty : Bool) (operand : Text)
  /-- The value without what the operand matches at its start. -/
  | withoutStart (isLongest : Bool) (operand : Text)
  /-- The value without what the operand matches at its end. -/
  | withoutEnd (isLongest : Bool) (operand : Text)
  | invalid
  deriving DecidableEq, Repr

/-- A script within a script: its first line, its text, and whether it stands between backquotes,
where lines count anew. -/
structure InnerScript where
  line : Nat
  text : Text
  isBackquoted : Bool
  deriving DecidableEq, Repr

/-- A part of a word. -/
inductive Part where
  | text (text : Text) (isQuoted : Bool)
  | parameter (name : Text) (change : Change) (isQuoted : Bool)
  /-- The output of a script. -/
  | output (script : InnerScript) (isQuoted : Bool)
  /-- The value of an expression. -/
  | arithmetic (expression : Text) (isQuoted : Bool)
  deriving DecidableEq, Repr

/-- The parts of a word in order. -/
abbrev Word := List Part

/-- The text of a word that has no quoted part, parameter or output. -/
def Word.plain? (word : Word) : Option Text :=
  match word with
  | [.text text false] => some text
  | _ => none

/-- The signs that take a file, a channel or a text. -/
inductive RedirectionSign where
  | read
  | write
  | duplicate
  | document
  deriving DecidableEq, Repr

/-- Where a channel of a command goes, or where its input comes from. -/
structure Redirection where
  descriptor : Nat
  sign : RedirectionSign
  target : Word
  deriving Repr

/-- The lexical items of a script. -/
inductive Lexeme where
  | word (word : Word)
  /-- A sign between commands, or one that opens or closes a group. -/
  | sign (sign : String)
  | redirection (descriptor : Nat) (sign : RedirectionSign)
  /-- The text of a document that follows later, by its number. -/
  | document (number : Nat)
  /-- The end of the script, or the place from which it cannot be read. -/
  | finish (fault : Option String)
  deriving DecidableEq, Repr

/-- When an entry is run: always, or after a success or a failure. -/
inductive Condition where
  | always
  | onSuccess
  | onFailure
  deriving DecidableEq, Repr

/-- A pipeline with its condition. -/
structure Entry (γ : Type) where
  condition : Condition
  isNegated : Bool
  stages : List γ
  /-- Whether what follows does not wait for the pipeline. -/
  isBackground : Bool

/-- A command, with the line that it begins in. -/
inductive Command where
  | simple (line : Nat) (assignments : List (Text × Word)) (words : List Word)
    (redirections : List Redirection)
  | group (line : Nat) (isSubshell : Bool) (body : List (Entry Command))
    (redirections : List Redirection)
  /-- A choice by conditions, each with the script for its success. -/
  | choice (line : Nat) (branches : List (List (Entry Command) × List (Entry Command)))
    (otherwise : List (Entry Command)) (redirections : List Redirection)
  /-- A choice by patterns for a word, each list of them with its script. -/
  | selection (line : Nat) (word : Word) (branches : List (List Word × List (Entry Command)))
    (redirections : List Redirection)
  /-- A loop as long as a condition succeeds, or fails. -/
  | loop (line : Nat) (isUntil : Bool) (condition body : List (Entry Command))
    (redirections : List Redirection)
  /-- A loop over words, or else over the arguments. -/
  | each (line : Nat) (name : Text) (words : Option (List Word)) (body : List (Entry Command))
    (redirections : List Redirection)
  /-- A name for a command. -/
  | definition (name : Text) (body : Command)

/-- The redirections of a command as a whole. -/
def Command.redirections : Command → List Redirection
  | simple _ _ _ redirections | group _ _ _ redirections | choice _ _ _ redirections
  | selection _ _ _ redirections | loop _ _ _ _ redirections | each _ _ _ _ redirections =>
    redirections
  | definition _ _ => []

/-- A script. -/
abbrev Script := List (Entry Command)

/-- Why a text is not a script, and in which line: the reason in words. -/
structure ScriptError where
  line : Nat
  reason : String
  deriving DecidableEq, Repr

/-- What is told of an error. -/
def ScriptError.message (error : ScriptError) : String :=
  "Syntax error: " ++ error.reason

end Marginalia.Program
