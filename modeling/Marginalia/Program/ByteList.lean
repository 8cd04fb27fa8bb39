import Marginalia.Program.Escape

/-! # Lists of bytes

The arguments of `tr` list bytes in order: single bytes, ranges, named classes, and bytes that are
repeated.  `ByteList.read` reads such a list as its elements.
-/
namespace Marginalia.Program

open Text

/-- All bytes in order. -/
def allBytes : Bytes :=
  (List.range 256).map UInt8.ofNat

/-- The bytes in the class of the given name. -/
def byteClass? (name : String) : Option Bytes :=
  let isUpper := fun b : UInt8 => 0x41 ≤ b && b ≤ 0x5A
  let isLower := fun b : UInt8 => 0x61 ≤ b && b ≤ 0x7A
  let isDigit := fun b : UInt8 => 0x30 ≤ b && b ≤ 0x39
  let isGraphic := fun b : UInt8 => 0x21 ≤ b && b ≤ 0x7E
  let select := fun p : UInt8 → Bool => some (allBytes.filter p)
  match name with
  | "upper" => select isUpper
  | "lower" => select isLower
  | "digit" => select isDigit
  | "alpha" => select fun b => isUpper b || isLower b
  | "alnum" => select fun b => isUpper b || isLower b || isDigit b
  | "punct" => select fun b => isGraphic b && !(isUpper b || isLower b || isDigit b)
  | "graph" => select isGraphic
  | "print" => select isPrintable
  | "space" => select fun b => b = 0x20 || (0x09 ≤ b && b ≤ 0x0D)
  | "blank" => select fun b => b = 0x20 || b = 0x09
  | "cntrl" => select fun b => b < 0x20 || b = 0x7F
  | "xdigit" =>
    select fun b => isDigit b || (0x41 ≤ b && b ≤ 0x46) || (0x61 ≤ b && b ≤ 0x66)
  | _ => none

/-- A byte in a list, and whether a backslash stands in front of it. -/
abbrev Listed := UInt8 × Bool

/-- The bytes that a list spells, with its escapes replaced; `fuel` is more than its length. -/
def spelled : Nat → Bytes → List Listed
  | 0, _ | _, [] => []
  | fuel + 1, b :: rest =>
    if !isByteOf '\\' b then (b, false) :: spelled fuel rest
    else
      match octal rest, rest with
      | _, [] => [(b, false)]
      | (0, _), letter :: rest => ((escapeByte? letter).getD letter, true) :: spelled fuel rest
      | (length, value), _ =>
        -- A third digit that makes the value too great for a byte stands for itself.
        if value < 256 then (UInt8.ofNat value, true) :: spelled fuel (rest.drop length)
        else (UInt8.ofNat (value / 8), true) :: spelled fuel (rest.drop 2)

/-- What is told of escapes in a list that are not clear; `fuel` is more than its length. -/
def warningsOf : Nat → Bytes → List String
  | 0, _ | _, [] => []
  | fuel + 1, b :: rest =>
    if !isByteOf '\\' b then warningsOf fuel rest
    else
      match octal rest, rest with
      | _, [] => ["an unescaped backslash at end of string is not portable"]
      | (0, _), _ :: rest => warningsOf fuel rest
      | (length, value), _ =>
        if value < 256 then warningsOf fuel (rest.drop length)
        else
          ("the ambiguous octal escape \\" ++ textOf (rest.take 3) ++ " is being\n\t" ++
            "interpreted as the 2-byte sequence \\0" ++ textOf (rest.take 2) ++ ", " ++
            textOf ((rest.drop 2).take 1)) :: warningsOf fuel (rest.drop 2)

/-- An element of a list. -/
inductive Element where
  | range (first last : UInt8)
  | byteClass (name : String) (members : Bytes)
  | equivalent (b : UInt8)
  /-- A byte so many times, or as often as it takes. -/
  | repeated (b : UInt8) (count : Option Nat)

/-- A byte that stands for itself. -/
def Element.single (b : UInt8) : Element :=
  .range b b

/-- Whether a byte at the front of a list is the given character, without a backslash. -/
def isUnescaped (c : Char) (list : List Listed) : Bool :=
  list.head?.any fun (b, isEscaped) => isByteOf c b && !isEscaped

/-- What stands in front of the sign and the bracket that close a class, and what follows them;
`front` holds what stands before, latest first. -/
def closed? (c : Char) (front : Bytes) : List Listed → Option (Bytes × List Listed)
  | [] => none
  | entry :: rest =>
    if isUnescaped c [entry] && isUnescaped ']' rest then some (front.reverse, rest.drop 1)
    else closed? c (entry.1 :: front) rest

/-- Whether a list begins with a star, digits and a closing bracket. -/
def isStarAndDigits (list : List Listed) : Bool :=
  isUnescaped '*' list &&
    isUnescaped ']' ((list.drop 1).dropWhile fun entry => 0x30 ≤ entry.1 && entry.1 ≤ 0x39)

/-- The bytes of a list as a message shows them. -/
def shownBytes (list : Bytes) : Bytes :=
  list.flatMap fun b =>
    Utf8.encode (if (letterEscapes.map Prod.snd).contains b then escapeOf b else visible b)

/-- A byte is repeated at most this often. -/
def greatestRepetition : Nat := 0x7FFFFFFFFFFFFFFD

/-- Reads a repetition behind the opening bracket. -/
def repetition? (list : List Listed) : Except String (Option (Element × List Listed)) :=
  match list with
  | (b, _) :: star :: rest =>
    if !isUnescaped '*' [star] then .ok none
    else
      let digits := rest.takeWhile fun entry => !entry.2 && !isByteOf ']' entry.1
      let rest := rest.drop digits.length
      if !isUnescaped ']' rest then .ok none
      else
        let digits := digits.map Prod.fst
        let text := (textOf digits).toList
        let base := if text.head? = some '0' then 8 else 10
        match if text.isEmpty then some 0 else digitsValue? base text with
        | some 0 => .ok (some (.repeated b none, rest.drop 1))
        | some count =>
          if count ≤ greatestRepetition then
            .ok (some (.repeated b (some count), rest.drop 1))
          else .error (tooMany digits)
        | none => .error (tooMany digits)
  | _ => .ok none
where
  /-- What is told of digits that are no number of repetitions. -/
  tooMany (digits : Bytes) : String :=
    "invalid repeat count " ++ quoted (shownBytes digits) ++ " in [c*n] construct"

/-- Reads a class or a repetition behind the opening bracket. -/
def bracketed? (list : List Listed) : Except String (Option (Element × List Listed)) :=
  if isUnescaped ':' list then
    match closed? ':' [] (list.drop 1) with
    | none => repetition? list
    | some (name, rest) =>
      match byteClass? (textOf name) with
      | some members => .ok (some (.byteClass (textOf name) members, rest))
      | none =>
        if name.isEmpty then .error "missing character class name '[::]'"
        else if isStarAndDigits (list.drop 1) then repetition? list
        else .error ("invalid character class " ++ quoted (shownBytes name))
  else if isUnescaped '=' list then
    match closed? '=' [] (list.drop 1) with
    | none => repetition? list
    | some ([b], rest) => .ok (some (.equivalent b, rest))
    | some (name, _) =>
      if name.isEmpty then .error "missing equivalence class character '[==]'"
      else if isStarAndDigits (list.drop 1) then repetition? list
      else
        .error (textOf (shownBytes name) ++
          ": equivalence class operand must be a single character")
  else repetition? list

/-- Reads the elements of a list, at most `fuel`. -/
def elementsFrom : Nat → List Listed → Except String (List Element)
  | 0, _ | _, [] => .ok []
  | fuel + 1, (b, isEscaped) :: rest => do
    let bracket? ←
      if isUnescaped '[' [(b, isEscaped)] && rest.length ≥ 2 then bracketed? rest else .ok none
    match bracket?, rest with
    | some (element, rest), _ => return element :: (← elementsFrom fuel rest)
    | none, dash :: (last, _) :: tail =>
      if !isUnescaped '-' [dash] then return .single b :: (← elementsFrom fuel rest)
      else if b ≤ last then return .range b last :: (← elementsFrom fuel tail)
      else
        throw ("range-endpoints of '" ++ String.ofList (visible b ++ ['-'] ++ visible last) ++
          "' are in reverse collating sequence order")
    | none, _ => return .single b :: (← elementsFrom fuel rest)

/-- Reads the elements of a list. -/
def readElements (list : Bytes) : Except String (List Element) :=
  elementsFrom (list.length + 1) (spelled (list.length + 1) list)

namespace Element

/-- More bytes than this need not be told apart. -/
def enough : Nat := 65536

/-- The bytes that an element stands for, where a byte that is repeated as often as it takes is
repeated so often. -/
def members (asNeeded : Nat) : Element → Bytes
  | range first last => allBytes.filter fun b => first ≤ b && b ≤ last
  | byteClass _ members => members
  | equivalent b => [b]
  | repeated b count => List.replicate (min enough (count.getD asNeeded)) b

/-- Whether the element is a class of letters in one case. -/
def isCase : Element → Bool
  | byteClass "upper" _ | byteClass "lower" _ => true
  | _ => false

/-- Whether the element is a class. -/
def isClass : Element → Bool
  | byteClass _ _ => true
  | _ => false

/-- Whether the element is repeated as often as it takes. -/
def isAsNeeded : Element → Bool
  | repeated _ none => true
  | _ => false

end Element

/-- The bytes that elements stand for. -/
def membersOf (asNeeded : Nat) (elements : List Element) : Bytes :=
  elements.flatMap (Element.members asNeeded)

/-- The places at which classes of letters in one case begin. -/
def casePlaces (asNeeded : Nat) (elements : List Element) : List Nat :=
  (elements.foldl (fun (places, place) element =>
    (if element.isCase then place :: places else places,
      place + (element.members asNeeded).length)) (([] : List Nat), 0)).1

end Marginalia.Program
