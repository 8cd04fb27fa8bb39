import Marginalia.Program.ByteList
import Marginalia.Program.Switch

/-! # Transliteration

The program `tr` replaces, removes or squeezes bytes, which its operands list.  `transliterate` says
which byte stands for which: the byte at the same place of the other list, whose last byte stands
for all places behind it.
-/
namespace Marginalia.Program

open Text

/-- What is done with the bytes. -/
structure Transliteration where
  isComplement : Bool
  isDeletion : Bool
  isSqueeze : Bool
  /-- Whether bytes that have none at their place in the other list stay as they are. -/
  isTruncated : Bool

namespace Transliteration

/-- The options. -/
def switches : List (Switch (Transliteration → Transliteration)) :=
  [⟨['c', 'C'], ["complement"], .plain fun options => { options with isComplement := true }⟩,
   ⟨['d'], ["delete"], .plain fun options => { options with isDeletion := true }⟩,
   ⟨['s'], ["squeeze-repeats"], .plain fun options => { options with isSqueeze := true }⟩,
   ⟨['t'], ["truncate-set1"], .plain fun options => { options with isTruncated := true }⟩,
   ⟨['A'], [], .plain id⟩]

end Transliteration

/-! ## Replacing and squeezing -/

/-- The byte that stands for a byte: the one at the same place of `new` as its last place in
`old`. -/
def transliterate (old new : Bytes) (b : UInt8) : UInt8 :=
  match (old.zip new).reverse.find? fun pair => pair.1 = b with
  | some (_, new) => new
  | none => b

/-- Runs of one and the same byte of the set, made into one byte. -/
def squeeze (isMember : UInt8 → Bool) (content : Bytes) : Bytes :=
  (content.foldl (fun front b =>
    if front.head? = some b && isMember b then front else b :: front) []).reverse

/-- The lists of an input: what is replaced, removed or squeezed, and what replaces it or is
squeezed then. -/
structure ByteLists where
  old : Bytes
  new : Option Bytes

/-- The output of a transliteration. -/
def Transliteration.apply (options : Transliteration) (lists : ByteLists) (input : Bytes) :
    Bytes :=
  let isOld := (allBytes.map lists.old.contains).toArray
  let isMember := fun b : UInt8 => isOld.getD b.toNat false
  if options.isDeletion then
    let kept := input.filter fun b => !isMember b
    match options.isSqueeze, lists.new with
    | true, some new => squeeze new.contains kept
    | _, _ => kept
  else
    match lists.new with
    | none => squeeze isMember input
    | some new =>
      let table := (allBytes.map (transliterate lists.old new)).toArray
      let translated := input.map fun b => table.getD b.toNat b
      if options.isSqueeze then squeeze new.contains translated else translated

/-! ## Lists -/

/-- The second list, made as long as the first. -/
def extended (options : Transliteration) (elements : List Element) (length : Nat) (new : Bytes) :
    Except String Bytes :=
  if length ≤ new.length || options.isTruncated then .ok new
  else
    match elements.getLast?, new.getLast? with
    | some last, some b =>
      if last.isClass then
        .error ("when translating with string1 longer than string2,\n" ++
          "the latter string must not end with a character class")
      else .ok (new ++ List.replicate (length - new.length) b)
    | _, _ => .error "when not truncating set1, string2 must be non-empty"

/-- Whether an element may stand in the list of what replaces bytes. -/
def checkNew (elements : List Element) : Except String Unit := do
  for element in elements do
    if let .equivalent _ := element then
      throw "[=c=] expressions may not appear in string2 when translating"
  for element in elements do
    if element.isClass && !element.isCase then
      throw ("when translating, the only character classes that may appear in\n" ++
        "string2 are 'upper' and 'lower'")

/-- The lists of a transliteration, from the elements of its operands. -/
def Transliteration.lists (options : Transliteration) (old : List Element)
    (new : Option (List Element)) : Except String ByteLists := do
  if old.any Element.isAsNeeded then
    throw "the [c*] repeat construct may not appear in string1"
  let listed := membersOf 0 old
  let oldBytes := if options.isComplement then allBytes.filter fun b => !listed.contains b
    else listed
  match new with
  | none => return ⟨oldBytes, none⟩
  | some new =>
    let asNeeded := oldBytes.length - (membersOf 0 new).length
    let newBytes := membersOf asNeeded new
    if (new.filter Element.isAsNeeded).length > 1 then
      throw "only one [c*] repeat construct may appear in string2"
    if options.isDeletion then
      if new.any Element.isAsNeeded then
        throw "the [c*] construct may appear in string2 only when translating"
      return ⟨oldBytes, some newBytes⟩
    checkNew new
    let oldPlaces := casePlaces 0 old
    let isAligned := fun place => oldBytes.length < place || oldPlaces.contains place
    if !options.isComplement && !(casePlaces asNeeded new).all isAligned then
      throw "misaligned [:upper:] and/or [:lower:] construct"
    let newBytes ← extended options new oldBytes.length newBytes
    if options.isComplement && old.any Element.isClass &&
        !(newBytes.length = oldBytes.length && newBytes.all fun b => some b = newBytes.head?) then
      throw ("when translating with complemented character classes,\n" ++
        "string2 must map all characters in the domain to one")
    return ⟨oldBytes, some newBytes⟩

/-! ## Operands -/

/-- The one or two lists that operands are, or what is wrong with their number. -/
def Transliteration.operands (options : Transliteration) :
    List Bytes → Except String (Bytes × Option Bytes)
  | [] => .error "missing operand"
  | [old] =>
    if options.isDeletion != options.isSqueeze then .ok (old, none)
    else
      .error ("missing operand after " ++ quoted old ++ "\nTwo strings must be given when " ++
        (if options.isSqueeze then "both deleting and squeezing repeats." else "translating."))
  | [old, new] =>
    if options.isDeletion && !options.isSqueeze then
      .error ("extra operand " ++ quoted new ++
        "\nOnly one string may be given when deleting without squeezing repeats.")
    else .ok (old, some new)
  | _ :: second :: third :: _ =>
    let extra := if options.isDeletion && !options.isSqueeze then second else third
    .error ("extra operand " ++ quoted extra)

/-- Replaces bytes, or removes or squeezes them as the options tell. -/
def tr : Run := fun arguments input =>
  match settled Transliteration.switches false ⟨false, false, false, false⟩ arguments with
  | .error fault => .failure 1 (fault.report "tr") input
  | .ok (options, operands) =>
    match options.operands operands with
    | .error message => .failure 1 (callMessage "tr" message) input
    | .ok (old, new) =>
      let lists := do
        let old ← readElements old
        let new ← new.mapM readElements
        options.lists old new
      let warnings := (old :: new.toList).flatMap fun list =>
        (warningsOf (list.length + 1) list).map fun warning =>
          (Channel.errors, bytes ("tr: warning: " ++ warning ++ "\n"))
      let outcome : Outcome := match lists with
        | .error message => .failure 1 ("tr: " ++ message) input
        | .ok lists => .success (options.apply lists input) []
      { outcome with written := warnings ++ outcome.written }

end Marginalia.Program
