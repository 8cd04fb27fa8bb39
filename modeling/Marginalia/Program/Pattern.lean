import Marginalia.Program.Basic
import Std.Data.HashSet.Basic

/-! # Patterns

A pattern describes sequences of bytes: single bytes one after another, alternatives, repetitions,
and groups whose bytes can be asked for again.  Of all ways in which a pattern matches at one place
the longest counts, and of several longest ones the first: a repetition goes on while it can, and
alternatives are tried in order.

`Pattern.longest?` finds that way.
-/
namespace Marginalia.Program

/-- What a single byte has to be. -/
inductive Atom where
  | byte (b : UInt8)
  | any
  | oneOf (isNegated : Bool) (members : Bytes)
  deriving DecidableEq, Repr

/-- What a place between two bytes has to be. -/
inductive Boundary where
  | lineStart
  | lineEnd
  | textStart
  | textEnd
  | wordStart
  | wordEnd
  /-- The start or the end of a word, or else neither of them. -/
  | word (isNegated : Bool)
  deriving DecidableEq, Repr

/-- A pattern. -/
inductive Pattern where
  | nothing
  | single (atom : Atom)
  | boundary (boundary : Boundary)
  | sequence (first second : Pattern)
  | either (first second : Pattern)
  /-- The pattern any number of times. -/
  | repeated (pattern : Pattern)
  | group (number : Nat) (pattern : Pattern)
  /-- The bytes of a group once more. -/
  | again (number : Nat)
  deriving DecidableEq, Repr

/-- How a pattern is to be understood. -/
structure Manner where
  /-- Whether small and capital letters count as the same. -/
  isCaseless : Bool
  /-- Whether lines within the text have starts and ends. -/
  isByLine : Bool
  deriving DecidableEq, Repr

/-- A place in a text: how many bytes of a match were read, the byte before, what is left, and the
bytes of the groups, latest first. -/
structure Place where
  offset : Nat
  before : Option UInt8
  rest : Bytes
  groups : List (Nat × Bytes)

/-- The small letter of a byte. -/
def smallByte (b : UInt8) : UInt8 :=
  if 0x41 ≤ b && b ≤ 0x5A then b + 0x20 else b

/-- The capital letter of a byte. -/
def capitalByte (b : UInt8) : UInt8 :=
  if 0x61 ≤ b && b ≤ 0x7A then b - 0x20 else b

/-- Whether a byte belongs to words. -/
def isWordByte (b : UInt8) : Bool :=
  0x61 ≤ smallByte b && smallByte b ≤ 0x7A || 0x30 ≤ b && b ≤ 0x39 || b = 0x5F

namespace Place

/-- Whether the byte before the place and the byte after it belong to words. -/
def words (place : Place) : Bool × Bool :=
  (place.before.any isWordByte, place.rest.head?.any isWordByte)

/-- The place after the byte that comes next. -/
def after (place : Place) (b : UInt8) (rest : Bytes) : Place :=
  { place with offset := place.offset + 1, before := some b, rest }

/-- The places without those at which an earlier one of them is. -/
def distinct (places : List Place) : List Place :=
  match places with
  | [] | [_] => places
  | _ =>
    (places.foldl (fun (seen, front) place =>
      if seen.contains place.offset then (seen, front)
      else (seen.insert place.offset, place :: front))
      ((∅, []) : Std.HashSet Nat × List Place)).2.reverse

end Place

namespace Manner

/-- Whether two bytes count as the same. -/
def same (manner : Manner) (a b : UInt8) : Bool :=
  a = b || manner.isCaseless && smallByte a = smallByte b

/-- Whether the atom accepts a byte. -/
def accepts (manner : Manner) (b : UInt8) : Atom → Bool
  | .byte c => manner.same b c
  | .any => !(manner.isByLine && b = lineFeed)
  | .oneOf isNegated members =>
    members.any (manner.same b) != isNegated && !(isNegated && manner.isByLine && b = lineFeed)

/-- Whether the boundary is at a place. -/
def holdsAt (manner : Manner) (place : Place) : Boundary → Bool
  | .lineStart => place.before.isNone || manner.isByLine && place.before = some lineFeed
  | .lineEnd => place.rest.isEmpty || manner.isByLine && place.rest.head? = some lineFeed
  | .textStart => place.before.isNone
  | .textEnd => place.rest.isEmpty
  | .wordStart => place.words = (false, true)
  | .wordEnd => place.words = (true, false)
  | .word isNegated => (place.words.1 != place.words.2) != isNegated

/-- The place after one byte that the atom accepts. -/
def step? (manner : Manner) (atom : Atom) (place : Place) : Option Place :=
  match place.rest with
  | [] => none
  | b :: rest => if manner.accepts b atom then some (place.after b rest) else none

/-- The places after bytes that the atom accepts, from the place itself on; those after more bytes
come first.  `found` holds the places before. -/
def run (manner : Manner) (atom : Atom) (found : List Place) (place : Place) : List Place :=
  match place with
  | ⟨_, _, [], _⟩ => place :: found
  | ⟨_, _, b :: rest, _⟩ =>
    if manner.accepts b atom then manner.run atom (place :: found) (place.after b rest)
    else place :: found
termination_by place.rest.length
decreasing_by simp [Place.after]

/-- The place after the given bytes. -/
def skip? (manner : Manner) : Bytes → Place → Option Place
  | [], place => some place
  | b :: rest, place => (manner.step? (.byte b) place).bind (manner.skip? rest)

end Manner

/-- The places after any number of steps; those after more steps come first, and a place that was
reached before is left out.  A pending place is either still to be visited, or has been and comes
after all that is reached from it. -/
def placesAfter (step : Place → List Place) :
    Nat → Std.HashSet Nat → List Place → List (Place × Bool) → List Place
  | _, _, found, [] => found.reverse
  | fuel, visited, found, (place, true) :: pending =>
    placesAfter step fuel visited (place :: found) pending
  | 0, visited, found, (_, false) :: pending => placesAfter step 0 visited found pending
  | fuel + 1, visited, found, (place, false) :: pending =>
    if visited.contains place.offset then placesAfter step (fuel + 1) visited found pending
    else
      let next := (step place).filter fun after => place.offset < after.offset
      placesAfter step fuel (visited.insert place.offset) found
        (next.map (·, false) ++ (place, true) :: pending)
termination_by fuel _ _ pending => (fuel, pending.length)

namespace Pattern

/-- The places after a match of the pattern, in the order in which they are tried. -/
def places (manner : Manner) : Pattern → Place → List Place
  | nothing, place => [place]
  | single atom, place => (manner.step? atom place).toList
  | .boundary edge, place => if manner.holdsAt place edge then [place] else []
  | sequence first second, place =>
    Place.distinct ((first.places manner place).flatMap (second.places manner))
  | either first second, place =>
    Place.distinct (first.places manner place ++ second.places manner place)
  | repeated (single atom), place => manner.run atom [] place
  | repeated pattern, place =>
    placesAfter (pattern.places manner) (place.rest.length + 1) ∅ [] [(place, false)]
  | group number pattern, place =>
    (pattern.places manner place).map fun after =>
      let content := place.rest.take (after.offset - place.offset)
      { after with groups := (number, content) :: after.groups }
  | again number, place =>
    match place.groups.lookup number with
    | some content => (manner.skip? content place).toList
    | none => []

/-- The place after the longest match at a place. -/
def longest? (manner : Manner) (pattern : Pattern) (place : Place) : Option Place :=
  (pattern.places manner place).foldl (fun longest place =>
    match longest with
    | some found => if found.offset < place.offset then some place else longest
    | none => some place) none

/-- The pattern at least `least` and at most `most` times. -/
def times (least : Nat) (most : Option Nat) (pattern : Pattern) : Pattern :=
  let tail := match most with
    | none => repeated pattern
    | some most =>
      (List.replicate (most - least) pattern).foldl (fun tail pattern =>
        either (sequence pattern tail) nothing) nothing
  match least with
  | 0 => tail
  | least + 1 => sequence ((List.replicate least pattern).foldl sequence pattern) tail

/-- The pattern at most once. -/
def optional (pattern : Pattern) : Pattern :=
  either pattern nothing

end Pattern

end Marginalia.Program
