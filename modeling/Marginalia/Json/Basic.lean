/-! # JSON values

Values of JSON as the library's files hold them.  Of numbers only whole ones have a use, so the
others are not told apart.  `record?` reads a value as a record with named fields: an object, or
an array of the fields' values in order.

A text can be well-formed and yet hold what no value stands for.  Where such a part is passed over
it does no harm, so it has a place among the values; `isReadable` tells whether a value is free of
it.
-/
namespace Marginalia

/-- A JSON value; members keep their order and their repetitions. -/
inductive Json where
  | null
  | bool (value : Bool)
  /-- A whole number of at most 64 bits, written without a fraction and an exponent. -/
  | whole (value : Int)
  /-- Any other number. -/
  | fractional
  | string (value : String)
  | array (items : List Json)
  | object (members : List (String × Json))
  /-- A number out of the range of floating point, a string with half of a surrogate pair, or an
  object with such a string for a name. -/
  | unreadable

namespace Json

mutual

/-- Whether all of a value can be read, and its arrays and objects nest in at most `depth`
levels. -/
def isReadable (depth : Nat) : Json → Bool
  | unreadable => false
  | array items =>
    match depth with
    | 0 => false
    | depth + 1 => areReadable depth items
  | object members =>
    match depth with
    | 0 => false
    | depth + 1 => haveReadable depth members
  | _ => true

/-- Whether all items can be read. -/
def areReadable (depth : Nat) : List Json → Bool
  | [] => true
  | item :: items => isReadable depth item && areReadable depth items

/-- Whether the values of all members can be read. -/
def haveReadable (depth : Nat) : List (String × Json) → Bool
  | [] => true
  | (_, value) :: members => isReadable depth value && haveReadable depth members

end

/-- The text of a string. -/
def text? : Json → Option String
  | string value => some value
  | _ => none

/-- The natural number of a value below the given bound. -/
def natural? (bound : Nat) : Json → Option Nat
  | whole value => if 0 ≤ value ∧ value.toNat < bound then some value.toNat else none
  | _ => none

/-- The items of an array. -/
def items? : Json → Option (List Json)
  | array items => some items
  | _ => none

/-- The texts of an array of texts. -/
def texts? (json : Json) : Option (List String) := do
  (← json.items?).mapM text?

/-- The value of the last member with the given name. -/
def member? (json : Json) (name : String) : Option Json :=
  match json with
  | object members => (members.reverse.find? fun member => member.1 = name).map Prod.snd
  | _ => none

/-- The value of a field among members; a field must not come twice. -/
def field? (members : List (String × Json)) (name : String) : Option (Option Json) :=
  match members.filter fun member => member.1 = name with
  | [] => some none
  | [member] => some (some member.2)
  | _ => none

/-- The values of the named fields of a record, each if it is present.  The fields of an object
go by their names, and members with other names are passed over; the items of an array are the
fields in order, and there may be more of them only if `allowsMore`. -/
def record? (allowsMore : Bool) (names : List String) (json : Json) :
    Option (List (Option Json)) :=
  match json with
  | object members => names.mapM (field? members)
  | array items =>
    if items.length ≤ names.length || allowsMore then
      some ((List.range names.length).map fun i => items[i]?)
    else none
  | _ => none

end Json

end Marginalia
