import Marginalia.Text.Basic
import Marginalia.Text.DecimalDigit
import Marginalia.Text.Number

/-! # Sentinels

A sentinel is a word of letters and digits that stands for one end of a highlight, or for the
anchor of its margin note, while the text passes through a converter.  Reading finds the sentinels
of a text from left to right; the digits of a sentinel may be those of any script, but only the
digits zero to nine of ASCII give it an index.

`Marked.toText_ofText` says that the sentinels found and the text between them make up the text.
-/
namespace Marginalia

open Text

/-- What a sentinel marks. -/
inductive Sentinel.Kind where
  | start
  | stop
  | anchor
  deriving DecidableEq, Repr

namespace Sentinel.Kind

/-- All kinds, in their order. -/
def all : List Kind :=
  [.start, .stop, .anchor]

/-- What the kind is called in messages. -/
def description : Kind → String
  | .start => "highlight start"
  | .stop => "highlight end"
  | .anchor => "annotation anchor"

/-- The letters before the digits. -/
def opening : Kind → Text
  | .start => "HLSTART".toList
  | .stop => "HLEND".toList
  | .anchor => "ANNMARKER".toList

/-- The letters after the digits. -/
def closing : Kind → Text
  | .start => "ENDHL".toList
  | .stop => "ENDHL".toList
  | .anchor => "ENDMARKER".toList

end Sentinel.Kind

/-- A sentinel as it stands in a text. -/
structure Sentinel where
  kind : Sentinel.Kind
  digits : Text
  deriving DecidableEq, Repr

namespace Sentinel

/-- The sentinel of a kind for the highlight with the given index. -/
def ofIndex (kind : Kind) (index : Nat) : Sentinel :=
  ⟨kind, decimal index⟩

/-- The word itself. -/
def toText (sentinel : Sentinel) : Text :=
  sentinel.kind.opening ++ sentinel.digits ++ sentinel.kind.closing

/-- The number written by digits of ASCII. -/
def valueOf (digits : Text) : Nat :=
  digits.foldl (fun value c => value * 10 + (c.toNat - '0'.toNat)) 0

/-- The index of the highlight, if the digits are those of ASCII. -/
def index? (sentinel : Sentinel) : Option Nat :=
  if sentinel.digits.all Char.isDigit then some (valueOf sentinel.digits) else none

/-- A sentinel has at most this many digits. -/
def maxDigits : Nat := 9

/-- Reads a sentinel of the given kind at the front of a text. -/
def ofKind? (kind : Kind) (text : Text) : Option (Sentinel × Text) :=
  match kind.opening.isPrefixOf? text with
  | none => none
  | some body =>
    let digits := body.takeWhile isDecimalDigit
    if 1 ≤ digits.length ∧ digits.length ≤ maxDigits then
      (kind.closing.isPrefixOf? (body.dropWhile isDecimalDigit)).map (⟨kind, digits⟩, ·)
    else none

/-- Reads a sentinel at the front of a text. -/
def read? (text : Text) : Option (Sentinel × Text) :=
  Kind.all.findSome? fun kind => ofKind? kind text

theorem eq_append_of_ofKind? {kind : Kind} {text rest : Text} {sentinel : Sentinel}
    (h : ofKind? kind text = some (sentinel, rest)) : text = sentinel.toText ++ rest := by
  unfold ofKind? at h
  split at h
  · cases h
  · next body ho =>
    dsimp only at h
    split at h
    · obtain ⟨tail, hc, heq⟩ := Option.map_eq_some_iff.mp h
      obtain ⟨rfl, rfl⟩ := Prod.mk.inj heq
      have hbody := List.takeWhile_append_dropWhile (p := isDecimalDigit) (l := body)
      rw [eq_append_of_isPrefixOf? ho, toText, List.append_assoc, List.append_assoc,
        ← eq_append_of_isPrefixOf? hc, hbody]
    · cases h

theorem eq_append_of_read? {text rest : Text} {sentinel : Sentinel}
    (h : read? text = some (sentinel, rest)) : text = sentinel.toText ++ rest := by
  obtain ⟨kind, _, hk⟩ := List.exists_of_findSome?_eq_some h
  exact eq_append_of_ofKind? hk

theorem length_toText_pos (sentinel : Sentinel) : 0 < sentinel.toText.length := by
  have h : sentinel.kind.opening ≠ [] := by cases sentinel.kind <;> decide
  have := List.length_pos_iff.mpr h
  simp only [toText, List.length_append]
  omega

end Sentinel

/-- A text cut at its sentinels: each with the text before it, and the text after the last. -/
structure Marked where
  parts : List (Text × Sentinel)
  tail : Text

namespace Marked

/-- The text with one more character in front. -/
def push (c : Char) (marked : Marked) : Marked :=
  match marked.parts with
  | [] => ⟨[], c :: marked.tail⟩
  | (literal, sentinel) :: parts => ⟨(c :: literal, sentinel) :: parts, marked.tail⟩

/-- Cuts a text at its sentinels, found from left to right. -/
def ofText (text : Text) : Marked :=
  match text with
  | [] => ⟨[], []⟩
  | c :: text =>
    match _h : Sentinel.read? (c :: text) with
    | some (sentinel, rest) =>
      let marked := ofText rest
      ⟨([], sentinel) :: marked.parts, marked.tail⟩
    | none => (ofText text).push c
termination_by text.length
decreasing_by
  · have heq := congrArg List.length (Sentinel.eq_append_of_read? _h)
    have := sentinel.length_toText_pos
    simp at heq ⊢
    omega
  · simp

/-- The text itself. -/
def toText (marked : Marked) : Text :=
  marked.parts.flatMap (fun (literal, sentinel) => literal ++ sentinel.toText) ++ marked.tail

/-- The text without its sentinels. -/
def literals (marked : Marked) : Text :=
  marked.parts.flatMap Prod.fst ++ marked.tail

/-- The sentinels in order. -/
def sentinels (marked : Marked) : List Sentinel :=
  marked.parts.map Prod.snd

@[simp] theorem toText_push (c : Char) (marked : Marked) :
    (marked.push c).toText = c :: marked.toText := by
  obtain ⟨parts, tail⟩ := marked
  cases parts <;> simp [push, toText]

@[simp] theorem literals_push (c : Char) (marked : Marked) :
    (marked.push c).literals = c :: marked.literals := by
  obtain ⟨parts, tail⟩ := marked
  cases parts <;> simp [push, literals]

@[simp] theorem sentinels_push (c : Char) (marked : Marked) :
    (marked.push c).sentinels = marked.sentinels := by
  obtain ⟨parts, tail⟩ := marked
  cases parts <;> simp [push, sentinels]

/-- Nothing is lost when a text is cut at its sentinels. -/
theorem toText_ofText (text : Text) : (ofText text).toText = text := by
  fun_induction ofText text with
  | case1 => rfl
  | case2 c text sentinel rest h marked ih =>
    rw [Sentinel.eq_append_of_read? h]
    simp only [toText, List.flatMap_cons, List.nil_append, List.append_assoc] at ih ⊢
    rw [ih]
  | case3 c text h ih => simp [ih]

end Marked

/-- The text without its sentinels. -/
def stripSentinels (text : Text) : Text :=
  (Marked.ofText text).literals

end Marginalia
