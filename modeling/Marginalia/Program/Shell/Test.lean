import Marginalia.Program.Shell.Arithmetic

/-! # Tests

The command `test` succeeds if what its arguments say is true.  They compare texts or numbers, ask
for the kind of a file, or join such questions.
-/
namespace Marginalia.Program

open Text

/-- Why arguments say nothing that is true or false. -/
inductive TestFault where
  | missingBracket
  | missingOperand (sign : String)
  | missingParenthesis
  | extraArgument (argument : String)
  | notANumber (argument : String)

/-- The fault in words, for the command of the given name. -/
def TestFault.message (name : String) : TestFault → String
  | missingBracket => name ++ ": missing ]"
  | missingOperand sign => name ++ ": " ++ sign ++ ": argument expected"
  | missingParenthesis => name ++ ": closing paren expected"
  | extraArgument "" => name ++ ": unexpected operator"
  | extraArgument argument => name ++ ": " ++ argument ++ ": unexpected operator"
  | notANumber argument => name ++ ": Illegal number: " ++ argument

/-- The signs in front of one operand. -/
def unarySigns : List String :=
  ["-r", "-w", "-x", "-e", "-f", "-d", "-c", "-b", "-p", "-u", "-g", "-k", "-s", "-t", "-z", "-n",
   "-h", "-O", "-G", "-L", "-S"]

/-- The signs between two operands. -/
def binarySigns : List String :=
  ["=", "!=", "<", ">", "-eq", "-ne", "-ge", "-gt", "-le", "-lt", "-nt", "-ot", "-ef"]

/-- The number that an argument writes. -/
def testNumber (argument : String) : Except TestFault Int :=
  let isBlank := fun c : Char => [' ', '\t', '\n', '\x0b', '\x0c', '\r'].contains c
  let text := argument.toList.dropWhile isBlank
  let (isNegative, digits) := match text with
    | '-' :: digits => (true, digits)
    | '+' :: digits => (false, digits)
    | _ => (false, text)
  let number := digits.takeWhile Char.isDigit
  let rest := (digits.drop number.length).dropWhile isBlank
  match digitsValue? 10 number, rest with
  | some n, [] =>
    if n < signedBound || isNegative && n = signedBound then
      .ok (if isNegative then -(n : Int) else n)
    else .error (.notANumber argument)
  | _, _ => .error (.notANumber argument)

/-- Whether what a sign between two operands says is true. -/
def compare (sign left right : String) : Except TestFault Bool := do
  let numbers := fun (test : Int → Int → Bool) => do
    return test (← testNumber left) (← testNumber right)
  match sign with
  | "=" => return left = right
  | "!=" => return left ≠ right
  | "<" => return left < right
  | ">" => return right < left
  | "-eq" => numbers fun a b => a = b
  | "-ne" => numbers fun a b => a ≠ b
  | "-ge" => numbers fun a b => a ≥ b
  | "-gt" => numbers fun a b => a > b
  | "-le" => numbers fun a b => a ≤ b
  | "-lt" => numbers fun a b => a < b
  | _ => return false

/-- Whether what a sign in front of an operand says is true; of files only the empty source and the
directories around it are known. -/
def ask (sign operand : String) : Except TestFault Bool := do
  let isDirectory := directories.contains operand
  let isDevice := ["/dev/null", "/dev/zero"].contains operand
  match sign with
  | "-n" => return operand ≠ ""
  | "-z" => return operand = ""
  | "-t" => return (← testNumber operand) ≠ 0 && false
  | "-f" | "-s" => return operand = "/etc/passwd"
  | "-e" | "-r" | "-w" => return isDirectory || isDevice || operand = "/etc/passwd"
  | "-d" | "-x" => return isDirectory
  | "-c" => return isDevice
  | _ => return false

/-- What a part of the arguments says, the last argument of the part, and what follows it. -/
structure Answer where
  value : Bool
  last : String
  rest : List String

mutual

/-- Reads a disjunction; `fuel` is more than four times the number of arguments. -/
def testAny (fuel : Nat) (arguments : List String) : Except TestFault Answer :=
  match fuel with
  | 0 => .ok ⟨false, "", []⟩
  | fuel + 1 => do
    let left ← testAll fuel arguments
    match left.rest with
    | "-o" :: rest =>
      let right ← testAny fuel rest
      return { right with value := left.value || right.value }
    | _ => return left

/-- Reads a conjunction. -/
def testAll (fuel : Nat) (arguments : List String) : Except TestFault Answer :=
  match fuel with
  | 0 => .ok ⟨false, "", []⟩
  | fuel + 1 => do
    let left ← testOne fuel arguments
    match left.rest with
    | "-a" :: rest =>
      let right ← testAll fuel rest
      return { right with value := left.value && right.value }
    | _ => return left

/-- Reads a question. -/
def testOne (fuel : Nat) (arguments : List String) : Except TestFault Answer :=
  match fuel, arguments with
  | 0, _ | _, [] => .ok ⟨false, "", []⟩
  | fuel + 1, first :: rest =>
    -- A sign is an operand itself if nothing follows that it could ask about.
    let isOperand := match rest with
      | [] => true
      | [_] => false
      | sign :: _ => binarySigns.contains sign
    if first = "!" then do
      let answer ← testOne fuel rest
      return { answer with value := !answer.value }
    else if first = "(" && !rest.isEmpty then
      match rest with
      | ")" :: rest => .ok ⟨false, ")", rest⟩
      | _ => do
        let answer ← testAny fuel rest
        match answer.rest with
        | ")" :: rest => return ⟨answer.value, ")", rest⟩
        | _ => throw .missingParenthesis
    else if unarySigns.contains first && !isOperand then
      match rest with
      | operand :: rest => do return ⟨← ask first operand, operand, rest⟩
      | [] => .error (.missingOperand first)
    else
      match rest with
      | sign :: others =>
        if !binarySigns.contains sign then .ok ⟨first ≠ "", first, rest⟩
        else
          match others with
          | right :: rest => do return ⟨← compare sign first right, right, rest⟩
          | [] => .error (.missingOperand sign)
      | [] => .ok ⟨first ≠ "", first, []⟩

end

/-- Whether what arguments say is true. -/
def testArguments (fuel : Nat) (arguments : List String) : Except TestFault Bool :=
  match fuel with
  | 0 => .ok false
  | fuel + 1 =>
    let general := do
      let answer ← testAny (4 * arguments.length + 4) arguments
      if answer.rest.isEmpty then return answer.value else throw (.extraArgument answer.last)
    match arguments with
    | [] => .ok false
    | [left, sign, right] =>
      if binarySigns.contains sign then compare sign left right
      else if left = "(" && right = ")" then testArguments fuel [sign]
      else if left = "!" then (testArguments fuel [sign, right]).map not
      else general
    | [first, second, third, fourth] =>
      if first = "(" && fourth = ")" then testArguments fuel [second, third]
      else if first = "!" then (testArguments fuel [second, third, fourth]).map not
      else general
    | _ => general

/-- Whether what the arguments of the command of the given name say is true. -/
def test (name : String) (arguments : List String) : Except TestFault Bool :=
  if name = "[" then
    if arguments.getLast? = some "]" then testArguments (arguments.length + 1) arguments.dropLast
    else .error .missingBracket
  else testArguments (arguments.length + 1) arguments

end Marginalia.Program
