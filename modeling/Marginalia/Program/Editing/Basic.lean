import Marginalia.Program.Pattern.Parser
import Marginalia.Program.Substitution

/-! # Scripts for editing lines

A script for the program `sed` is a list of edits.  An edit says which lines it is for and what is
done with them.  Lines are named by their number or by a pattern, one by one or as a range.

`EditingFault` lists why a text is not such a script, or why one cannot go on.
-/
namespace Marginalia.Program

open Text

/-- A pattern that is looked for in lines. -/
structure SoughtPattern where
  pattern : Pattern
  manner : Manner
  /-- How many groups the pattern has, where it is the one of an address: a substitution that looks
  for the same cannot ask for more. -/
  groups : Option Nat

/-- What is looked for in a line; none stands for what was looked for last. -/
abbrev Search := Option SoughtPattern

/-- The name of a line. -/
inductive Address where
  | line (number : Nat)
  /-- Every `step`-th line from the first one on. -/
  | every (first step : Nat)
  | last
  | found (search : Search)

/-- Where a range ends. -/
inductive RangeEnd where
  | at (address : Address)
  /-- So many lines later. -/
  | after (count : Nat)
  /-- At a line whose number is a multiple. -/
  | multiple (factor : Nat)

/-- The lines that an edit is for. -/
inductive Selection where
  | all
  | single (address : Address)
  | range (first : Address) (last : RangeEnd)

/-- When a jump is made: always, or depending on whether a substitution has replaced anything. -/
inductive JumpCondition where
  | always
  | ifReplaced
  | unlessReplaced
  deriving DecidableEq, Repr

/-- What is done with a line.  The text that is worked on is the line at hand, and a second one is
held aside. -/
inductive Action where
  /-- The start of edits that are for the selected lines only. -/
  | openBlock
  | closeBlock
  | label (name : Text)
  | jump (condition : JumpCondition) (label : Text)
  | substitute (substitution : Substitution) (search : Search) (target : Option Text)
  | transliterate (pairs : List (UInt8 × UInt8))
  | delete
  | deleteFirst
  | print
  | printFirst
  | write (file : Text)
  | writeFirst (file : Text)
  | list (width : Option Nat)
  | lineNumber
  | fileName
  | next
  | joinNext
  | hold
  | holdMore
  | takeHeld
  | addHeld
  | exchange
  | clear
  | append (content : Bytes)
  | insert (content : Bytes)
  | change (content : Bytes)
  | read (file : Text)
  | quit (code : Nat) (isPrinting : Bool)

/-- An edit: its place in the script, the lines it is for, and what is done with them. -/
structure Edit where
  index : Nat
  selection : Selection
  /-- Whether it is for the other lines. -/
  isNegated : Bool
  action : Action

/-- Why a text is not a script, or why a script cannot go on. -/
inductive EditingFault where
  | pattern (fault : PatternFault)
  | missingCommand
  | unknownCommand (letter : Char)
  | extraCharacters
  | unterminatedAddress
  | unexpectedComma
  | addressZero
  | repeatedNegation
  | tooManyAddresses
  | addressedComment
  | addressedLabel
  | addressedBlockEnd
  | openBlock
  | strayBlockEnd
  | missingText
  | missingLabel
  | unknownLabel (name : Text)
  | missingFile
  | unterminatedSubstitution
  | unknownFlag
  | repeatedPrint
  | repeatedGlobal
  | repeatedNumber
  | numberZero
  | unknownGroup (number : Nat)
  | unterminatedTransliteration
  | unequalLists
  | modifiedSearch
  | nothingToSearch

/-- The fault in words. -/
def EditingFault.message : EditingFault → String
  | pattern fault => fault.message
  | missingCommand => "missing command"
  | unknownCommand letter => "unknown command: `" ++ letter.toString ++ "'"
  | extraCharacters => "extra characters after command"
  | unterminatedAddress => "unterminated address regex"
  | unexpectedComma => "unexpected `,'"
  | addressZero => "invalid usage of line address 0"
  | repeatedNegation => "multiple `!'s"
  | tooManyAddresses => "command only uses one address"
  | addressedComment => "comments don't accept any addresses"
  | addressedLabel => ": doesn't want any addresses"
  | addressedBlockEnd => "`\x7d' doesn't want any addresses"
  | openBlock => "unmatched `\x7b'"
  | strayBlockEnd => "unexpected `\x7d'"
  | missingText => "expected \\ after `a', `c' or `i'"
  | missingLabel => "\":\" lacks a label"
  | unknownLabel name => "can't find label for jump to `" ++ String.ofList name ++ "'"
  | missingFile => "missing filename in r/R/w/W commands"
  | unterminatedSubstitution => "unterminated `s' command"
  | unknownFlag => "unknown option to `s'"
  | repeatedPrint => "multiple `p' options to `s' command"
  | repeatedGlobal => "multiple `g' options to `s' command"
  | repeatedNumber => "multiple number options to `s' command"
  | numberZero => "number option to `s' command may not be zero"
  | unknownGroup number =>
    "invalid reference \\" ++ String.ofList (decimal number) ++ " on `s' command's RHS"
  | unterminatedTransliteration => "unterminated `y' command"
  | unequalLists => "strings for `y' command are different lengths"
  | modifiedSearch => "cannot specify modifiers on empty regexp"
  | nothingToSearch => "no previous regular expression"

/-- Whether the fault is told without a place. -/
def EditingFault.hasNoPlace : EditingFault → Bool
  | unknownLabel _ | pattern .unbracketedClass => true
  | _ => false

end Marginalia.Program
