import Marginalia.Program.Script.Lexeme
import Marginalia.Program.Shell.State

/-! # Expressions of the shell

An expression is evaluated with whole numbers of 64 bits.  It may assign variables.  A part that is
left out, such as the right side of `0 && x`, is read but neither evaluated nor assigned.

`evaluate` gives the value and the state after the assignments.
-/
namespace Marginalia.Program

open Text

/-- The lexical items of an expression. -/
inductive Operand where
  | number (n : Int)
  | name (name : Text)
  | operator (sign : String)
  deriving DecidableEq, Repr

/-- Why an expression has no value. -/
inductive ArithmeticFault where
  | missingOperand
  | extraCharacters
  | missingParenthesis
  | missingColon
  | divisionByZero
  | notANumber (value : Bytes)

/-- The fault in words, for the expression in which it is. -/
def ArithmeticFault.message (fault : ArithmeticFault) (expression : Text) : String :=
  let within := fun reason =>
    "arithmetic expression: " ++ reason ++ ": \"" ++ String.ofList expression ++ "\""
  match fault with
  | missingOperand => within "expecting primary"
  | extraCharacters => within "expecting EOF"
  | missingParenthesis => within "expecting ')'"
  | missingColon => within "expecting ':'"
  | divisionByZero => within "division by zero"
  | notANumber value => "Illegal number: " ++ textOf value

/-- A number within 64 bits. -/
def wrapped (n : Int) : Int :=
  n.bmod (1 <<< 64 : Nat)

/-- The number at the front of a text, in base sixteen or eight behind the sign of the base, and
what follows. -/
def leadingNumber (text : Text) : Nat × Text :=
  let take := fun (base : Nat) (text : Text) =>
    let digits := text.takeWhile fun c => (digitsValue? base [c]).isSome
    ((digitsValue? base digits).getD 0, text.drop digits.length)
  match text with
  | '0' :: x :: c :: rest =>
    if (x = 'x' || x = 'X') && (digitsValue? 16 [c]).isSome then take 16 (c :: rest)
    else take 8 ('0' :: x :: c :: rest)
  | '0' :: rest => take 8 ('0' :: rest)
  | _ => take 10 text

/-- The operators, longer ones first. -/
def operators : List String :=
  ["<<=", ">>=", "<<", ">>", "<=", ">=", "==", "!=", "&&", "||", "+=", "-=", "*=", "/=", "%=", "&=",
   "|=", "^=", "=", "<", ">", "+", "-", "*", "/", "%", "&", "|", "^", "!", "~", "?", ":", "(", ")"]

/-- The items of an expression; `fuel` is more than its length.  A character that belongs to none is
an operator that stands nowhere. -/
def operandsFrom : Nat → Text → List Operand
  | 0, _ | _, [] => []
  | fuel + 1, c :: rest =>
    if c = ' ' || c = '\t' || c = '\n' then operandsFrom fuel rest
    else if c.isDigit then
      let (number, rest) := leadingNumber (c :: rest)
      .number (wrapped number) :: operandsFrom fuel rest
    else if isNameStart c then
      let name := (c :: rest).takeWhile isNamePart
      .name name :: operandsFrom fuel ((c :: rest).drop name.length)
    else
      match operators.findSome? fun sign =>
          (sign.toList.isPrefixOf? (c :: rest)).map (sign, ·) with
      | some (sign, rest) => .operator sign :: operandsFrom fuel rest
      | none => .operator "" :: operandsFrom fuel rest

/-- How strongly an operator between two operands binds them. -/
def strength? (sign : String) : Option Nat :=
  match sign with
  | "||" => some 1
  | "&&" => some 2
  | "|" => some 3
  | "^" => some 4
  | "&" => some 5
  | "==" | "!=" => some 6
  | "<" | "<=" | ">" | ">=" => some 7
  | "<<" | ">>" => some 8
  | "+" | "-" => some 9
  | "*" | "/" | "%" => some 10
  | _ => none

/-- Bits of a number as a natural number below `2 ^ 64`. -/
def bits (n : Int) : Nat :=
  (n.emod (1 <<< 64 : Nat)).toNat

/-- The value of an operator between two numbers. -/
def combine (sign : String) (a b : Int) : Except ArithmeticFault Int :=
  let truth := fun b : Bool => if b then 1 else 0
  match sign with
  | "||" => .ok (truth (a ≠ 0 || b ≠ 0))
  | "&&" => .ok (truth (a ≠ 0 && b ≠ 0))
  | "|" => .ok (wrapped (bits a ||| bits b : Nat))
  | "^" => .ok (wrapped (bits a ^^^ bits b : Nat))
  | "&" => .ok (wrapped (bits a &&& bits b : Nat))
  | "==" => .ok (truth (a = b))
  | "!=" => .ok (truth (a ≠ b))
  | "<" => .ok (truth (a < b))
  | "<=" => .ok (truth (a ≤ b))
  | ">" => .ok (truth (b < a))
  | ">=" => .ok (truth (b ≤ a))
  | "<<" => .ok (wrapped (bits a <<< (bits b % 64) : Nat))
  | ">>" => .ok (a >>> (bits b % 64))
  | "+" => .ok (wrapped (a + b))
  | "-" => .ok (wrapped (a - b))
  | "*" => .ok (wrapped (a * b))
  | "/" => if b = 0 then .error .divisionByZero else .ok (wrapped (a.tdiv b))
  | "%" => if b = 0 then .error .divisionByZero else .ok (a.tmod b)
  | _ => .ok b

/-- The number that the value of a variable writes; a missing or empty one is zero. -/
def numberOf (value : Bytes) : Except ArithmeticFault Int :=
  let text := (textOf value).toList.dropWhile fun c => c = ' ' || c = '\t' || c = '\n'
  let (isNegative, digits) := match text with
    | '-' :: digits => (true, digits)
    | '+' :: digits => (false, digits)
    | _ => (false, text)
  if text.isEmpty then .ok 0
  else
    match digits.head?.any Char.isDigit, leadingNumber digits with
    | true, (n, []) => .ok (wrapped (if isNegative then -(n : Int) else n))
    | _, _ => .error (.notANumber value)

/-- The decimal text of a number. -/
def decimalOf (n : Int) : Bytes :=
  Utf8.encode (if n < 0 then '-' :: decimal n.natAbs else decimal n.natAbs)

/-- What has been evaluated: the value, the state, and the items that are left. -/
structure Evaluated where
  value : Int
  state : State
  rest : List Operand

mutual

/-- Evaluates an assignment, or a choice between two values; nothing is assigned unless `isLive`. -/
def evaluateAll (fuel : Nat) (isLive : Bool) (state : State) (text : List Operand) :
    Except ArithmeticFault Evaluated :=
  match fuel with
  | 0 => .error .missingOperand
  | fuel + 1 => do
    let assign? := match text with
      | .name name :: .operator sign :: rest =>
        if sign = "=" then some (name, "", rest)
        else if sign.endsWith "=" && !(["==", "!=", "<=", ">="].contains sign) then
          some (name, (sign.dropEnd 1).toString, rest)
        else none
      | _ => none
    match assign? with
    | some (name, sign, rest) =>
      let right ← evaluateAll fuel isLive state rest
      if !isLive then return right
      let old ← if sign = "" then pure 0 else numberOf ((right.state.bound? name).getD [])
      let value ← if sign = "" then pure right.value else combine sign old right.value
      return { right with value, state := right.state.bind name (some (decimalOf value)) }
    | none =>
      let test ← evaluateBinary fuel isLive 1 state text
      match test.rest with
      | .operator "?" :: rest =>
        let yes ← evaluateAll fuel (isLive && test.value ≠ 0) test.state rest
        match yes.rest with
        | .operator ":" :: rest =>
          let no ← evaluateAll fuel (isLive && test.value = 0) yes.state rest
          return { no with value := if test.value ≠ 0 then yes.value else no.value }
        | _ => throw .missingColon
      | _ => return test

/-- Evaluates operands with operators between them that bind at least so strongly. -/
def evaluateBinary (fuel : Nat) (isLive : Bool) (least : Nat) (state : State)
    (text : List Operand) : Except ArithmeticFault Evaluated :=
  match fuel with
  | 0 => .error .missingOperand
  | fuel + 1 => do
    evaluateRest fuel isLive least (← evaluateUnary fuel isLive state text)

/-- Evaluates the operators behind an operand that bind at least so strongly. -/
def evaluateRest (fuel : Nat) (isLive : Bool) (least : Nat) (left : Evaluated) :
    Except ArithmeticFault Evaluated :=
  match fuel with
  | 0 => .error .missingOperand
  | fuel + 1 =>
    match left.rest with
    | .operator sign :: rest =>
      match strength? sign with
      | none => .ok left
      | some strength =>
        if strength < least then .ok left
        else do
          let isNeeded := isLive &&
            (if sign = "&&" then left.value ≠ 0 else if sign = "||" then left.value = 0 else true)
          let right ← evaluateBinary fuel isNeeded (strength + 1) left.state rest
          let value ← if !isLive then pure 0
            else if !isNeeded then pure (if sign = "||" then 1 else 0)
            else combine sign left.value right.value
          evaluateRest fuel isLive least { right with value }
    | _ => .ok left

/-- Evaluates an operand with the signs in front of it. -/
def evaluateUnary (fuel : Nat) (isLive : Bool) (state : State) (text : List Operand) :
    Except ArithmeticFault Evaluated :=
  match fuel with
  | 0 => .error .missingOperand
  | fuel + 1 =>
    let signed := fun (f : Int → Int) (rest : List Operand) => do
      let operand ← evaluateUnary fuel isLive state rest
      return { operand with value := wrapped (f operand.value) }
    match text with
    | .number n :: rest => .ok ⟨n, state, rest⟩
    | .name name :: rest => do
      let value ← if isLive then numberOf ((state.bound? name).getD []) else pure 0
      return ⟨value, state, rest⟩
    | .operator "-" :: rest => signed (fun n => -n) rest
    | .operator "+" :: rest => signed id rest
    | .operator "!" :: rest => signed (fun n => if n = 0 then 1 else 0) rest
    | .operator "~" :: rest => signed (fun n => -n - 1) rest
    | .operator "(" :: rest => do
      let inside ← evaluateAll fuel isLive state rest
      match inside.rest with
      | .operator ")" :: rest => return { inside with rest }
      | _ => throw .missingParenthesis
    | _ => .error .missingOperand

end

/-- Evaluates an expression; the empty one is zero. -/
def evaluate (state : State) (expression : Text) : Except ArithmeticFault (Int × State) := do
  match operandsFrom (expression.length + 1) expression with
  | [] => return (0, state)
  | operands =>
    let evaluated ← evaluateAll (4 * operands.length + 4) true state operands
    if evaluated.rest.isEmpty then return (evaluated.value, evaluated.state)
    else throw .extraCharacters

end Marginalia.Program
