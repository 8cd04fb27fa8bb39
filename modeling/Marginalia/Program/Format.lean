import Marginalia.Program.Escape

/-! # Formatted output

The programs `printf` and `echo` write their arguments.  A format is a list of pieces: bytes that
are written as they are, and conversions that take an argument.  `pieces` reads a format, and
`Piece.render` writes one piece with its argument.
-/
namespace Marginalia.Program

open Text

/-! ## Escapes -/

/-- What an escape stands for, and what follows it. -/
structure Escape where
  content : Bytes
  rest : Bytes
  /-- Whether the output ends here. -/
  isEnd : Bool

/-- Reads an escape after its backslash.  Where `hasLeadingZero`, a zero in front does not count
among the three digits of a byte in base eight. -/
def Escape.read (hasLeadingZero : Bool) (rest : Bytes) : Escape :=
  match rest with
  | [] => ⟨[0x5C], [], false⟩
  | letter :: tail =>
    if hasLeadingZero && isByteOf 'c' letter then ⟨[], [], true⟩
    else
      let digits := if hasLeadingZero && isByteOf '0' letter then tail else rest
      match octal digits, if isByteOf 'e' letter then some 0x1B else escapeByte? letter with
      | (0, _), some b => ⟨[b], tail, false⟩
      | (0, _), none =>
        if hasLeadingZero && isByteOf '0' letter then ⟨[0], tail, false⟩
        else ⟨[0x5C, letter], tail, false⟩
      | (length, value), _ => ⟨[UInt8.ofNat value], digits.drop length, false⟩

/-- Bytes with their escapes replaced, and whether an escape ended them; `front` holds the bytes
before, latest first. -/
def unescape (front : Bytes) : Nat → Bytes → Bytes × Bool
  | 0, rest => (front.reverse ++ rest, false)
  | _, [] => (front.reverse, false)
  | fuel + 1, b :: rest =>
    if isByteOf '\\' b then
      let escape := Escape.read true rest
      if escape.isEnd then (front.reverse, true)
      else unescape (escape.content.reverse ++ front) fuel escape.rest
    else unescape (b :: front) fuel rest

/-! ## Formats -/

/-- How an argument is written. -/
inductive Conversion where
  | text
  | escapedText
  | character
  | signed
  | unsigned (base : Nat) (isUpper : Bool)
  deriving DecidableEq

/-- The conversion of a letter. -/
def Conversion.ofLetter? (letter : UInt8) : Option Conversion :=
  match Char.ofNat letter.toNat with
  | 's' => some .text
  | 'b' => some .escapedText
  | 'c' => some .character
  | 'd' | 'i' => some .signed
  | 'u' => some (.unsigned 10 false)
  | 'o' => some (.unsigned 8 false)
  | 'x' => some (.unsigned 16 false)
  | 'X' => some (.unsigned 16 true)
  | _ => none

/-- A width or a limit: in the format, or in an argument. -/
inductive Amount where
  | given (n : Nat)
  | argument
  deriving DecidableEq

/-- The field in which an argument is written. -/
structure Field where
  /-- The signs in front of the width. -/
  flags : Bytes
  width : Amount
  limit : Option Amount

/-- A piece of a format. -/
inductive Piece where
  | bytes (content : Bytes)
  | argument (field : Field) (conversion : Conversion)
  /-- The place from which there is no format, and the reason. -/
  | fault (reason : String)

/-- Reads an amount: digits, or a star. -/
def Amount.read (rest : Bytes) : Amount × Bytes :=
  if rest.head?.any (isByteOf '*') then (.argument, rest.drop 1)
  else
    let digits := rest.takeWhile fun b => 0x30 ≤ b && b ≤ 0x39
    (.given (digits.foldl (fun value b => value * 10 + (b.toNat - 0x30)) 0),
      rest.drop digits.length)

/-- Reads a conversion after its percent sign. -/
def Piece.read (rest : Bytes) : Piece × Bytes :=
  let flags := rest.takeWhile (Program.bytes "#-+ 0").contains
  let (width, afterWidth) := Amount.read (rest.drop flags.length)
  let (limit, afterLimit) :=
    if afterWidth.head?.any (isByteOf '.') then
      let (limit, rest) := Amount.read (afterWidth.drop 1)
      (some limit, rest)
    else (none, afterWidth)
  match afterLimit with
  | [] => (.fault "missing format character", [])
  | letter :: after =>
    match Conversion.ofLetter? letter with
    | some conversion => (.argument ⟨flags, width, limit⟩ conversion, after)
    | none =>
      let directive := rest.take (rest.length - after.length)
      (.fault ("%" ++ textOf directive ++ ": invalid directive"), [])

/-- The pieces of a format; `fuel` is more than its length. -/
def pieces : Nat → Bytes → List Piece
  | 0, _ | _, [] => []
  | fuel + 1, b :: rest =>
    if isByteOf '\\' b then
      let escape := Escape.read false rest
      .bytes escape.content :: pieces fuel escape.rest
    else if isByteOf '%' b then
      if rest.head?.any (isByteOf '%') then .bytes [b] :: pieces fuel (rest.drop 1)
      else
        let (piece, rest) := Piece.read rest
        piece :: pieces fuel rest
    else .bytes [b] :: pieces fuel rest

/-! ## Numbers -/

/-- The digits at the front of a text in base ten, or in the base that is written in front of them,
with the base and what follows. -/
def basedDigits (text : Text) : Nat × Text × Text :=
  let digitsIn := fun (base : Nat) (text : Text) =>
    let digits := text.takeWhile fun c => (digitValue? base c).isSome
    (base, digits, text.drop digits.length)
  let plain := digitsIn (if text.head? = some '0' then 8 else 10) text
  match text with
  | '0' :: x :: rest =>
    if x ≠ 'x' && x ≠ 'X' then plain
    else
      match digitsIn 16 rest with
      | (_, [], _) => plain
      | hexadecimal => hexadecimal
  | _ => plain

/-- The whole number that an argument writes, and what is wrong with it; nothing counts as zero, and
a byte behind a quote as its number.  A number that is too great is replaced by the greatest. -/
def readNumber (isSigned : Bool) (argument : Bytes) : Int × Option String :=
  match argument with
  | [] => (0, none)
  | first :: rest =>
    if isByteOf '\'' first || isByteOf '"' first then ((rest.headD 0).toNat, none)
    else
      let text := (textOf argument).toList.dropWhile fun c =>
        [' ', '\t', '\n', '\x0b', '\x0c', '\r'].contains c
      let (isNegative, unsigned) := match text with
        | '-' :: text => (true, text)
        | '+' :: text => (false, text)
        | _ => (false, text)
      let (base, digits, after) := basedDigits unsigned
      match digitsValue? base digits with
      | none => (0, some "expected numeric value")
      | some n =>
        let greatest := if !isSigned then wordBound - 1
          else if isNegative then signedBound else signedBound - 1
        let value : Int := min n greatest
        let value := if isNegative && (isSigned || n ≤ greatest) then -value else value
        (value,
          if !after.isEmpty then some "not completely converted"
          else if greatest < n then some "Numerical result out of range"
          else none)

/-! ## Writing -/

/-- What has been written by a format: the bytes latest first, the arguments left, what is told of
arguments latest first, why writing has stopped, and whether an escape ended it. -/
structure Writing where
  front : Bytes
  arguments : List Bytes
  reports : List String
  fault : Option String
  isEnd : Bool

/-- The next argument. -/
def Writing.next (writing : Writing) : Option Bytes × Writing :=
  (writing.arguments.head?, { writing with arguments := writing.arguments.drop 1 })

/-- The number that the next argument writes. -/
def Writing.nextNumber (isSigned : Bool) (writing : Writing) : Int × Writing :=
  let (argument, writing) := writing.next
  let argument := argument.getD []
  match readNumber isSigned argument with
  | (value, none) => (value, writing)
  | (value, some report) =>
    (value, { writing with reports := (textOf argument ++ ": " ++ report) :: writing.reports })

/-- A field is at most this wide. -/
def greatestWidth : Nat := 1 <<< 20

/-- The amount that a number stands for: what 32 bits with a sign hold of it. -/
def amountOf (n : Int) : Int :=
  let low := n % (1 <<< 32 : Nat)
  min greatestWidth (if low < (1 <<< 31 : Nat) then low else low - (1 <<< 32 : Nat))

/-- An amount that may stand in the next argument. -/
def Amount.get (amount : Amount) (writing : Writing) : Int × Writing :=
  match amount with
  | given n => (amountOf n, writing)
  | argument =>
    let (n, writing) := writing.nextNumber true
    (amountOf n, writing)

/-- Bytes with blanks on one side up to a width. -/
def inField (isLeft : Bool) (width : Nat) (content : Bytes) : Bytes :=
  let blanks := List.replicate (width - content.length) 0x20
  if isLeft then content ++ blanks else blanks ++ content

/-- The digits of a number with what stands in front of them: zeros fill up the limit, or else the
width where a flag asks for it. -/
def numeral (flags : Bytes) (isLeft : Bool) (width : Nat) (limit : Option Nat)
    (sign digits : Text) : Bytes :=
  let digits := List.replicate (limit.getD 0 - digits.length) '0' ++ digits
  let isZeroed := flags.any (isByteOf '0') && !isLeft && limit.isNone
  let zeros := if isZeroed then width - (sign.length + digits.length) else 0
  inField isLeft width (Utf8.encode (sign ++ List.replicate zeros '0' ++ digits))

/-- A number as a conversion writes it, with a limit: the sign or the base in front of it, and its
digits. -/
def Conversion.digits (conversion : Conversion) (flags : Bytes) (limit : Option Nat)
    (value : Int) : Text × Text :=
  let digitsIn := fun (base n : Nat) =>
    if n = 0 && limit = some 0 then [] else Nat.toDigits base n
  match conversion with
  | unsigned base isUpper =>
    let n := (value % wordBound).toNat
    let digits := digitsIn base n
    let digits := if isUpper then digits.map Char.toUpper else digits
    let isAlternate := flags.any (isByteOf '#')
    if isAlternate && base = 16 && n ≠ 0 then (['0', if isUpper then 'X' else 'x'], digits)
    else if isAlternate && base = 8 && digits.head? ≠ some '0' &&
        limit.getD 0 ≤ digits.length then ([], '0' :: digits)
    else ([], digits)
  | _ =>
    let sign := if value < 0 then ['-']
      else if flags.any (isByteOf '+') then ['+']
      else if flags.any (isByteOf ' ') then [' ']
      else []
    (sign, digitsIn 10 value.natAbs)

/-- Writes one piece. -/
def Piece.render (writing : Writing) (piece : Piece) : Writing :=
  if writing.isEnd || writing.fault.isSome then writing
  else
    match piece with
    | .bytes content => { writing with front := content.reverse ++ writing.front }
    | .fault reason => { writing with fault := some reason }
    | .argument field conversion =>
      let (width, writing) := field.width.get writing
      let isLeft := width < 0 || field.flags.any (isByteOf '-')
      let (limit, writing) := match field.limit with
        | none => (none, writing)
        | some limit =>
          let (limit, writing) := limit.get writing
          (if limit < 0 then none else some limit.toNat, writing)
      let add := fun (writing : Writing) (content : Bytes) =>
        { writing with front := content.reverse ++ writing.front }
      let cut := fun content : Bytes => match limit with
        | some limit => content.take limit
        | none => content
      match conversion with
      | .text =>
        let (value, writing) := writing.next
        add writing (inField isLeft (min greatestWidth width.natAbs) (cut (value.getD [])))
      | .escapedText =>
        let (value, writing) := writing.next
        let value := value.getD []
        let (content, isEnd) := unescape [] (value.length + 1) value
        { add writing (inField isLeft (min greatestWidth width.natAbs) (cut content)) with isEnd }
      | .character =>
        let (value, writing) := writing.next
        add writing (inField isLeft (min greatestWidth width.natAbs) [(value.getD []).headD 0])
      | _ =>
        let (value, writing) := writing.nextNumber (conversion = .signed)
        let (sign, digits) := conversion.digits field.flags limit value
        add writing (numeral field.flags isLeft (min greatestWidth width.natAbs) limit sign digits)

/-- Writes a format, and again as long as arguments are left. -/
def render (pieces : List Piece) : Nat → Writing → Writing
  | 0, writing => writing
  | fuel + 1, writing =>
    let next := pieces.foldl Piece.render writing
    if next.isEnd || next.fault.isSome || next.arguments.isEmpty ||
        next.arguments.length = writing.arguments.length then next
    else render pieces fuel next

/-- Writes the arguments as the first one tells; `name` is what the program calls itself. -/
def printfAs (name : String) : Run := fun arguments input =>
  let run := fun (format : Bytes) (arguments : List Bytes) =>
    let writing := render (pieces (format.length + 1) format) (arguments.length + 1)
      ⟨[], arguments, [], none, false⟩
    let reports := (writing.fault.toList ++ writing.reports).reverse.map fun report =>
      (Channel.errors, bytes (name ++ ": " ++ report ++ "\n"))
    { written := reports ++ [(.output, writing.front.reverse)]
      unread := input
      ending := .exited (if writing.fault.isSome then 2 else if reports.isEmpty then 0 else 1)
      duration := some 0 : Outcome }
  let usage := Outcome.failure 2 (name ++ ": usage: printf format [arg ...]") input
  match arguments with
  | [] => usage
  | [0x2D, 0x2D] :: format :: arguments => run format arguments
  | [[0x2D, 0x2D]] => usage
  | (0x2D :: b :: _) :: _ => .failure 2 (name ++ ": Illegal option -" ++ textOf [b]) input
  | format :: arguments => run format arguments

/-- Writes the arguments with blanks between them and a line feed, which the option `-n` leaves
out; escapes are replaced if `hasEscapes`. -/
def echoAs (hasEscapes : Bool) : Run := fun arguments input =>
  let isOption := arguments.head? = some (bytes "-n")
  let operands := if isOption then arguments.drop 1 else arguments
  let content := ((operands.intersperse [0x20]).flatten)
  let (content, isEnd) :=
    if hasEscapes then unescape [] (content.length + 1) content else (content, false)
  .success (if isOption || isEnd then content else content ++ [0x0A]) input

end Marginalia.Program
