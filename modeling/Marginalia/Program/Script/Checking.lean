import Marginalia.Program.Script.Parser

/-! # Reading whole scripts

`Script.ofText` reads a script to its end, or as far as it can be read.  The scripts within its
words have to be scripts too: the first word with one that is not makes the rest unreadable, just as
a quote without an end does.
-/
namespace Marginalia.Program

/-! ## Scripts within words -/

/-- The lexemes of a script within a script, up to the parenthesis that closes it. -/
def InnerScript.lexemes (script : InnerScript) : Lexemes :=
  (Program.lexemes script.line script.text).map fun (line, lexeme) =>
    match lexeme with
    | .finish none => (line, if script.isBackquoted then lexeme else .sign ")")
    | _ => (line, lexeme)

/-- The error in entries that have to go on to the end of a script within a script. -/
def entriesError? (text : Lexemes) : Option ScriptError :=
  let isEnd := fun text : Lexemes => match text with
    | [] | [(_, .finish none)] | [(_, .sign ")")] => true
    | _ => false
  if isEnd (skipLines text) then none
  else
    match readEntries (4 * text.length + 4) false .always [] text with
    | .error error => some error
    | .ok (_, rest) => if isEnd rest then none else some (unexpectedAt none rest)

/-- The error in the scripts within a word, if one is none. -/
def wordError? (errorOf : InnerScript → Option ScriptError) (word : Word) : Option ScriptError :=
  word.findSome? fun part =>
    match part with
    | .output script _ => errorOf script
    | _ => none

/-- The lexemes up to the first word that holds what is no script, and then the reason. -/
def checkedBy (errorOf : InnerScript → Option ScriptError) : Lexemes → Lexemes
  | [] => []
  | (line, lexeme) :: rest =>
    match lexeme with
    | .word word =>
      match wordError? errorOf word with
      | some error => [(error.line, .finish (some error.reason))]
      | none => (line, lexeme) :: checkedBy errorOf rest
    | _ => (line, lexeme) :: checkedBy errorOf rest

/-- The error in a script within a script, if it is none; `depth` bounds the nesting. -/
def innerError? : Nat → InnerScript → Option ScriptError
  | 0, _ => none
  | depth + 1, script => entriesError? (checkedBy (innerError? depth) script.lexemes)

/-- Scripts are nested at most this deep in words. -/
def greatestInnerDepth : Nat := 1000

/-! ## Whole scripts -/

/-- The scripts of a text, line by line in one, and why it cannot be read further; `fuel` is more
than the number of lexemes. -/
def scriptFrom (before : Script) : Nat → Lexemes → Script × Option ScriptError
  | 0, _ => (before, none)
  | fuel + 1, text =>
    match readLine text with
    | .error error => (before, some error)
    | .ok none => (before, none)
    | .ok (some (entries, rest)) => scriptFrom (before ++ entries) fuel rest

/-- The script that a text holds which begins in the given line, and why it cannot be read further;
the scripts within its words are known to be scripts if `isChecked`. -/
def Script.ofText (isChecked : Bool) (line : Nat) (text : Text) : Script × Option ScriptError :=
  let lexemes := lexemes line text
  let lexemes := if isChecked then lexemes else checkedBy (innerError? greatestInnerDepth) lexemes
  scriptFrom [] (lexemes.length + 1) lexemes

end Marginalia.Program
