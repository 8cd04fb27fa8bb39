import Marginalia.Program.Script.Lexeme

/-! # Reading scripts

A script is read and run line by line, where a line goes on as long as a command in it does.
`readLine` reads one line from the lexemes that are left.  Every function reads from the front of
the lexemes and gives what is left; `fuel` bounds the number of steps, and four times the number of
lexemes is enough.
-/
namespace Marginalia.Program

/-- The lexemes that are left to be read, each with its line. -/
abbrev Lexemes := List (Nat × Lexeme)

/-- The words that have a meaning of their own where a command begins. -/
def reservedWords : List String :=
  ["!", "\x7b", "\x7d", "case", "do", "done", "elif", "else", "esac", "fi", "for", "if", "in",
   "then", "until", "while"]

/-- The reserved words before which a list of entries ends. -/
def closingWords : List String :=
  ["\x7d", "do", "done", "elif", "else", "esac", "fi", "then"]

/-- The word that stands alone at the front, if it is unquoted. -/
def plainWord? : Lexemes → Option String
  | (_, .word word) :: _ => word.plain?.map String.ofList
  | _ => none

/-- The reserved word at the front. -/
def reserved? (text : Lexemes) : Option String :=
  (plainWord? text).filter fun word => reservedWords.contains word

/-- The error of finding the given lexemes in place of the expected word or sign. -/
def unexpectedAt (expected : Option String) (text : Lexemes) : ScriptError :=
  let error := fun (line : Nat) (found : String) =>
    let suffix := match expected with
      | none => ""
      | some "word" => " (expecting word)"
      | some expected => " (expecting \"" ++ expected ++ "\")"
    (⟨line, found ++ " unexpected" ++ suffix⟩ : ScriptError)
  match text with
  | [] => error 1 "end of file"
  | (line, lexeme) :: _ =>
    match lexeme, reserved? text with
    | .finish (some reason), _ => ⟨line, reason⟩
    | .finish none, _ => error line "end of file"
    | .sign "\n", _ => error line "newline"
    | .sign sign, _ => error line ("\"" ++ sign ++ "\"")
    | .redirection _ _, _ => error line "redirection"
    | _, some word => error line ("\"" ++ word ++ "\"")
    | _, none => error line "word"

/-- What follows the ends of lines. -/
def skipLines : Lexemes → Lexemes
  | (_, .sign "\n") :: rest => skipLines rest
  | rest => rest

/-- What follows the expected word or sign. -/
def expect (expected : String) (text : Lexemes) : Except ScriptError Lexemes :=
  match text with
  | (line, .sign sign) :: rest =>
    if sign = expected then .ok rest
    else .error (unexpectedAt (some expected) ((line, .sign sign) :: rest))
  | _ :: rest =>
    if reserved? text = some expected then .ok rest
    else .error (unexpectedAt (some expected) text)
  | [] => .error (unexpectedAt (some expected) [])

/-- What follows the parenthesis that closes a name or patterns, where no word has a meaning of its
own. -/
def expectClosing (text : Lexemes) : Except ScriptError Lexemes :=
  match text with
  | (line, .word _) :: _ => .error ⟨line, "word unexpected (expecting \")\")"⟩
  | _ => expect ")" text

/-- Whether the end of the script is reached. -/
def isFinished (text : Lexemes) : Bool :=
  match text with
  | [] | (_, .finish none) :: _ => true
  | _ => false

/-- Whether a list of entries ends before the given lexemes. -/
def isClosing (text : Lexemes) : Bool :=
  match text with
  | [] | (_, .finish none) :: _ | (_, .sign ")") :: _ | (_, .sign ";;") :: _ => true
  | _ => (reserved? text).any fun word => closingWords.contains word

/-- The name and the value of a word that assigns a variable. -/
def assignment? (word : Word) : Option (Text × Word) :=
  match word with
  | .text text false :: parts =>
    let name := text.takeWhile isNamePart
    match text.dropWhile isNamePart with
    | '=' :: value =>
      if isName name then
        some (name, if value.isEmpty then parts else .text value false :: parts)
      else none
    | _ => none
  | _ => none

/-- A simple command under way; its parts are latest first. -/
structure Simple where
  assignments : List (Text × Word)
  words : List Word
  redirections : List Redirection

/-- Reads redirections at the front; they are added to those before, latest first. -/
def readRedirections (before : List Redirection) :
    Lexemes → Except ScriptError (List Redirection × Lexemes)
  | (_, .redirection descriptor sign) :: (_, .word target) :: rest =>
    readRedirections (⟨descriptor, sign, target⟩ :: before) rest
  | (_, .redirection _ _) :: rest => .error (unexpectedAt none rest)
  | rest => .ok (before.reverse, rest)

/-- Reads the words and redirections of a simple command. -/
def readSimple (simple : Simple) : Lexemes → Except ScriptError (Simple × Lexemes)
  | (_, .redirection descriptor sign) :: (_, .word target) :: rest =>
    let redirections := ⟨descriptor, sign, target⟩ :: simple.redirections
    readSimple { simple with redirections } rest
  | (_, .redirection _ _) :: rest => .error (unexpectedAt none rest)
  | (_, .word word) :: rest =>
    match if simple.words.isEmpty then assignment? word else none with
    | some assignment =>
      readSimple { simple with assignments := assignment :: simple.assignments } rest
    | none => readSimple { simple with words := word :: simple.words } rest
  | rest => .ok (simple, rest)

/-- Reads the words of a loop up to the end of their line. -/
def readWords (before : List Word) : Lexemes → Except ScriptError (List Word × Lexemes)
  | (_, .word word) :: rest => readWords (word :: before) rest
  | (_, .sign ";") :: rest => .ok (before.reverse, rest)
  | (_, .sign "\n") :: rest => .ok (before.reverse, rest)
  | rest => .error (unexpectedAt none rest)

/-- Reads the patterns of a branch up to the parenthesis that closes them. -/
def readPatterns (before : List Word) : Lexemes → Except ScriptError (List Word × Lexemes)
  | (_, .word word) :: (_, .sign "|") :: rest => readPatterns (word :: before) rest
  | (_, .word word) :: rest => do return ((word :: before).reverse, ← expectClosing rest)
  | (line, .finish fault) :: _ => .error (unexpectedAt (some ")") [(line, .finish fault)])
  | _ :: rest => .error (unexpectedAt (some ")") rest)
  | [] => .error (unexpectedAt (some ")") [])

/-- The names of the shell's own commands that cannot be given to others. -/
def specialCommands : List String :=
  [".", ":", "break", "continue", "eval", "exec", "exit", "export", "local", "readonly", "return",
   "set", "shift", "times", "trap", "unset"]

mutual

/-- Reads a command. -/
def readCommand (fuel : Nat) (text : Lexemes) : Except ScriptError (Command × Lexemes) :=
  match fuel with
  | 0 => .error (unexpectedAt none text)
  | fuel + 1 =>
    match text, reserved? text with
    | (line, .sign "(") :: rest, _ => do
      let (body, rest) ← readEntries fuel false .always [] rest
      let (redirections, rest) ← readRedirections [] (← expect ")" rest)
      return (.group line true body redirections, rest)
    | (line, _) :: rest, some "\x7b" => do
      let (body, rest) ← readEntries fuel false .always [] rest
      let (redirections, rest) ← readRedirections [] (← expect "\x7d" rest)
      return (.group line false body redirections, rest)
    | (line, _) :: rest, some "if" => do
      let ((branches, otherwise), rest) ← readBranches fuel rest
      let (redirections, rest) ← readRedirections [] rest
      return (.choice line branches otherwise redirections, rest)
    | (line, _) :: rest, some "while" => readLoop fuel line false rest
    | (line, _) :: rest, some "until" => readLoop fuel line true rest
    | (line, _) :: rest, some "for" => readEach fuel line rest
    | (line, _) :: (_, .word word) :: rest, some "case" => do
      let rest ← expect "in" (skipLines rest)
      let (branches, rest) ← readSelection fuel rest
      let (redirections, rest) ← readRedirections [] rest
      return (.selection line word branches redirections, rest)
    | _ :: rest, some "case" => .error (unexpectedAt (some "word") rest)
    | _, some _ => .error (unexpectedAt none text)
    | (line, .word name) :: (signLine, .sign "(") :: rest, none => do
      if (assignment? name).isSome then throw (unexpectedAt none [(signLine, .sign "(")])
      let rest ← expectClosing rest
      match name.plain? with
      | some name =>
        if !isName name || specialCommands.contains (String.ofList name) then
          throw ⟨line, "Bad function name"⟩
        let (body, rest) ← readCommand fuel (skipLines rest)
        return (.definition name body, rest)
      | none => throw ⟨line, "Bad function name"⟩
    | (line, .word word) :: rest, none => do
      let (simple, rest) ← readSimple ⟨[], [], []⟩ ((line, .word word) :: rest)
      return (.simple line simple.assignments.reverse simple.words.reverse
        simple.redirections.reverse, rest)
    | (line, .redirection descriptor sign) :: rest, none => do
      let (simple, rest) ←
        readSimple ⟨[], [], []⟩ ((line, .redirection descriptor sign) :: rest)
      return (.simple line simple.assignments.reverse simple.words.reverse
        simple.redirections.reverse, rest)
    | _, none => .error (unexpectedAt none text)

/-- Reads the branches of a choice behind the word that opens them. -/
def readBranches (fuel : Nat) (text : Lexemes) :
    Except ScriptError ((List (Script × Script) × Script) × Lexemes) :=
  match fuel with
  | 0 => .error (unexpectedAt none text)
  | fuel + 1 => do
    let (condition, rest) ← readEntries fuel false .always [] text
    let (body, rest) ← readEntries fuel false .always [] (← expect "then" rest)
    match reserved? rest with
    | some "elif" =>
      let ((branches, otherwise), rest) ← readBranches fuel (rest.drop 1)
      return (((condition, body) :: branches, otherwise), rest)
    | some "else" =>
      let (otherwise, rest) ← readEntries fuel false .always [] (rest.drop 1)
      return (([(condition, body)], otherwise), ← expect "fi" rest)
    | _ => return (([(condition, body)], []), ← expect "fi" rest)

/-- Reads a loop behind the word that opens it. -/
def readLoop (fuel line : Nat) (isUntil : Bool) (text : Lexemes) :
    Except ScriptError (Command × Lexemes) :=
  match fuel with
  | 0 => .error (unexpectedAt none text)
  | fuel + 1 => do
    let (condition, rest) ← readEntries fuel false .always [] text
    let (body, rest) ← readEntries fuel false .always [] (← expect "do" rest)
    let (redirections, rest) ← readRedirections [] (← expect "done" rest)
    return (.loop line isUntil condition body redirections, rest)

/-- Reads a loop over words behind the word that opens it. -/
def readEach (fuel : Nat) (line : Nat) (text : Lexemes) :
    Except ScriptError (Command × Lexemes) :=
  match fuel, text with
  | fuel + 1, (nameLine, .word word) :: rest => do
    let name := (word.plain?.filter isName).getD []
    if name.isEmpty then throw ⟨nameLine, "Bad for loop variable"⟩
    let afterName := skipLines rest
    let (words, rest) ← if plainWord? afterName = some "in" then do
        let (words, rest) ← readWords [] (afterName.drop 1)
        pure (some words, rest)
      else
        match afterName with
        | (_, .sign ";") :: rest => pure (none, rest)
        | rest => pure (none, rest)
    let rest ← expect "do" (skipLines rest)
    let (body, rest) ← readEntries fuel false .always [] rest
    let (redirections, rest) ← readRedirections [] (← expect "done" rest)
    return (.each line name words body redirections, rest)
  | _, (line, _) :: _ => .error ⟨line, "Bad for loop variable"⟩
  | _, [] => .error ⟨line, "Bad for loop variable"⟩

/-- Reads the branches of a choice by patterns. -/
def readSelection (fuel : Nat) (text : Lexemes) :
    Except ScriptError (List (List Word × Script) × Lexemes) :=
  match fuel with
  | 0 => .error (unexpectedAt none text)
  | fuel + 1 => do
    let text := skipLines text
    if reserved? text = some "esac" then return ([], text.drop 1)
    let (patterns, rest) ← readPatterns [] (match text with
      | (_, .sign "(") :: rest => rest
      | _ => text)
    let rest := skipLines rest
    let (body, rest) ← if isClosing rest then pure ([], rest)
      else readEntries fuel false .always [] rest
    if reserved? rest = some "esac" then return ([(patterns, body)], rest.drop 1)
    let (branches, rest) ← readSelection fuel (← expect ";;" rest)
    return ((patterns, body) :: branches, rest)

/-- Reads the commands of a pipeline; those before are latest first. -/
def readStages (fuel : Nat) (before : List Command) (text : Lexemes) :
    Except ScriptError (List Command × Lexemes) :=
  match fuel with
  | 0 => .error (unexpectedAt none text)
  | fuel + 1 => do
    let (command, rest) ← readCommand fuel text
    match rest with
    | (_, .sign "|") :: rest => readStages fuel (command :: before) (skipLines rest)
    | _ => return ((command :: before).reverse, rest)

/-- Reads entries up to the end of their list, which is also the end of their line where `isLine`;
those before are latest first. -/
def readEntries (fuel : Nat) (isLine : Bool) (condition : Condition)
    (before : List (Entry Command)) (text : Lexemes) : Except ScriptError (Script × Lexemes) :=
  match fuel with
  | 0 => .error (unexpectedAt none text)
  | fuel + 1 =>
    let text := if isLine && condition = .always then text else skipLines text
    match text with
    | (_, .sign "\n") :: rest => .ok (before.reverse, rest)
    | _ =>
      if condition = .always && (isFinished text ||
          !isLine && !before.isEmpty && isClosing text) then
        .ok (before.reverse, text)
      else do
        let isNegated := reserved? text = some "!"
        let (stages, rest) ← readStages fuel [] (if isNegated then text.drop 1 else text)
        let entry : Bool → Entry Command := fun isBackground =>
          ⟨condition, isNegated, stages, isBackground⟩
        match rest with
        | (_, .sign "&&") :: rest =>
          readEntries fuel isLine .onSuccess (entry false :: before) rest
        | (_, .sign "||") :: rest =>
          readEntries fuel isLine .onFailure (entry false :: before) rest
        | (_, .sign "&") :: rest => readEntries fuel isLine .always (entry true :: before) rest
        | (_, .sign ";") :: rest => readEntries fuel isLine .always (entry false :: before) rest
        | (_, .sign "\n") :: rest =>
          if isLine then .ok ((entry false :: before).reverse, rest)
          else readEntries fuel isLine .always (entry false :: before) rest
        | _ =>
          if isFinished rest || !isLine && isClosing rest then
            .ok ((entry false :: before).reverse, rest)
          else .error (unexpectedAt none rest)

end

/-- Reads a line of a script; the fault is that it is none, and no line is left at the end. -/
def readLine (text : Lexemes) : Except ScriptError (Option (Script × Lexemes)) :=
  match skipLines text with
  | [] | [(_, .finish none)] => .ok none
  | text => do
    let (entries, rest) ← readEntries (4 * text.length + 4) true .always [] text
    return some (entries, rest)

end Marginalia.Program
