import Marginalia.Json.Basic

/-! # TOML documents

The values of a TOML document and the rules for building its tables.  A table may be opened by a
header of its own, by a header for a table inside it, or by dotted keys; the rules say which of
these may add to which.  `insert`, `openTable` and `openItem` give nothing where a rule is broken.

A finished document is handed on as a JSON value.
-/
namespace Marginalia

/-- What opened a table. -/
inductive Toml.Origin where
  /-- A header of its own. -/
  | header
  /-- A header for a table inside it. -/
  | implied
  /-- A dotted key. -/
  | dotted
  deriving DecidableEq, Repr

/-- A value of a document. -/
inductive Toml where
  | string (value : String)
  | integer (value : Int)
  | float
  | bool (value : Bool)
  | moment (source : String)
  | array (items : List Toml)
  /-- A table written within braces, which nothing can add to. -/
  | inline (members : List (String × Toml))
  | table (origin : Toml.Origin) (members : List (String × Toml))
  /-- An array of tables that were opened by headers, the latest first. -/
  | tables (items : List (List (String × Toml)))

namespace Toml

/-- The members of a table, in the order of their first mention. -/
abbrev Members := List (String × Toml)

/-- The members with a new value for a name. -/
def put (name : String) (value : Toml) : Members → Members
  | [] => [(name, value)]
  | member :: members =>
    if member.1 = name then (name, value) :: members else member :: put name value members

/-- Changes the table at the end of a path, and opens the tables on the way that are not there.
`byKey` tells that the path comes from a dotted key, which cannot go through a table that has a
header.  `change` is given what opened the table. -/
def within (byKey : Bool) (change : Origin → Members → Option Members) (origin : Origin)
    (members : Members) : List String → Option Members
  | [] => change origin members
  | name :: path =>
    match members.lookup name with
    | none => do
      let opened := if byKey then Origin.dotted else .implied
      let inner ← within byKey change opened [] path
      return put name (.table opened inner) members
    | some (.table opened inner) =>
      if byKey && opened = .header then none
      else do return put name (.table opened (← within byKey change opened inner path)) members
    | some (.tables (latest :: before)) => do
      return put name (.tables ((← within byKey change .header latest path) :: before)) members
    | some _ => none

/-- Adds a value under a dotted key: the names before the last one lead to its table. -/
def insert (path : List String) (name : String) (value : Toml) (origin : Origin)
    (members : Members) : Option Members :=
  within true (fun opened inner =>
    -- A key of one name goes into the table itself, a dotted one only into tables of dotted keys.
    if (opened == .dotted) == path.isEmpty then none
    else if (inner.lookup name).isSome then none
    else some (put name value inner)) origin members path

/-- Opens the table of a header. -/
def openTable (path : List String) (name : String) (members : Members) : Option Members :=
  within false (fun _ inner =>
    match inner.lookup name with
    | none => some (put name (.table .header []) inner)
    | some (.table .implied old) => some (put name (.table .header old) inner)
    | some _ => none) .header members path

/-- Opens the next table of an array of tables. -/
def openItem (path : List String) (name : String) (members : Members) : Option Members :=
  within false (fun _ inner =>
    match inner.lookup name with
    | none => some (put name (.tables [[]]) inner)
    | some (.tables items) => some (put name (.tables ([] :: items)) inner)
    | some _ => none) .header members path

/-- The name of the only member of a date or time that is handed on as an object. -/
def momentMember : String := "$__toml_private_datetime"

mutual

/-- The value as JSON. -/
def toJson : Toml → Json
  | string value => .string value
  | integer value => .whole value
  | float => .fractional
  | bool value => .bool value
  | moment source => .object [(momentMember, .string source)]
  | array items => .array (itemsToJson items)
  | inline members => .object (membersToJson members)
  | table _ members => .object (membersToJson members)
  | tables items => .array (tablesToJson items [])

/-- Values as JSON. -/
def itemsToJson : List Toml → List Json
  | [] => []
  | item :: items => toJson item :: itemsToJson items

/-- Members as JSON. -/
def membersToJson : List (String × Toml) → List (String × Json)
  | [] => []
  | (name, value) :: members => (name, toJson value) :: membersToJson members

/-- Tables as JSON, in the opposite order, before those that are done. -/
def tablesToJson : List (List (String × Toml)) → List Json → List Json
  | [], done => done
  | members :: rest, done => tablesToJson rest (.object (membersToJson members) :: done)

end

end Toml

end Marginalia
