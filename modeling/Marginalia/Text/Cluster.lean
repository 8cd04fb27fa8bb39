import Marginalia.Text.Basic
import Marginalia.Text.ClusterTable

/-! # Grapheme clusters

A text falls into extended grapheme clusters, the units a reader sees as one character.  Whether
a cluster ends between two characters depends on their classes and on a little of what stands
before them, which `Lookback` keeps: the parity of a run of regional indicators, a pictograph
that a joiner may continue, and a consonant that a linker may continue.

The clusters of a text are never empty and make it up (`clusters_flatten`,
`ne_nil_of_mem_clusters`).
-/
namespace Marginalia.Text

namespace Cluster

/-- The classes of characters that segmentation tells apart. -/
inductive Kind where
  | return
  | newline
  | control
  | extender
  | nonJoiner
  | linker
  | joiner
  | spacingMark
  | prepended
  | leading
  | vowel
  | trailing
  | openSyllable
  | closedSyllable
  | pictograph
  | consonant
  | indicator
  | other
  deriving DecidableEq, Repr

/-- The class of a character. -/
def kind (c : Char) : Kind :=
  let n := c.toNat
  if n == 0x0D then .return
  else if n == 0x0A then .newline
  else if n < 0x20 || n == 0x7F then .control
  else if n < 0x7F then .other
  else if n == 0x200D then .joiner
  else if n == 0x200C then .nonJoiner
  else if 0xAC00 ≤ n && n ≤ 0xD7A3 then
    if (n - 0xAC00) % 28 == 0 then .openSyllable else .closedSyllable
  else if 0x1F1E6 ≤ n && n ≤ 0x1F1FF then .indicator
  else if controls.contains c then .control
  else if conjunctLinkers.contains c then .linker
  else if extenders.contains c then .extender
  else if spacingMarks.contains c then .spacingMark
  else if prepended.contains c then .prepended
  else if leadingJamo.contains c then .leading
  else if vowelJamo.contains c then .vowel
  else if trailingJamo.contains c then .trailing
  else if conjunctConsonants.contains c then .consonant
  else if pictographs.contains c then .pictograph
  else .other

/-- How far a sequence of a pictograph, marks and a joiner has come. -/
inductive Picture where
  | absent
  | shown
  | joined
  deriving DecidableEq, Repr

/-- How far a sequence of a consonant and a linker has come. -/
inductive Conjunct where
  | absent
  | bare
  | linked
  deriving DecidableEq, Repr

/-- What the rules need to know of the text before a position. -/
structure Lookback where
  last : Kind
  oddIndicators : Bool
  picture : Picture
  conjunct : Conjunct

/-- The look-back after one more character. -/
def Lookback.push (oddIndicators : Bool) (picture : Picture) (conjunct : Conjunct) (k : Kind) :
    Lookback where
  last := k
  oddIndicators := k == .indicator && !oddIndicators
  picture :=
    match k, picture with
    | .pictograph, _ => .shown
    | .extender, .shown | .linker, .shown | .nonJoiner, .shown => .shown
    | .joiner, .shown => .joined
    | _, _ => .absent
  conjunct :=
    match k, conjunct with
    | .consonant, _ => .bare
    | .linker, .bare | .linker, .linked => .linked
    | .extender, before | .joiner, before => before
    | _, _ => .absent

/-- The look-back after the first character of a text. -/
def Lookback.first (k : Kind) : Lookback :=
  Lookback.push false .absent .absent k

/-- The look-back after one more character. -/
def Lookback.next (back : Lookback) (k : Kind) : Lookback :=
  Lookback.push back.oddIndicators back.picture back.conjunct k

/-- Whether a cluster ends before a character of the given class. -/
def Lookback.endsBefore (back : Lookback) (k : Kind) : Bool :=
  match back.last, k with
  | .return, .newline => false
  | .return, _ | .newline, _ | .control, _ => true
  | _, .return | _, .newline | _, .control => true
  | .leading, .leading | .leading, .vowel | .leading, .openSyllable
  | .leading, .closedSyllable => false
  | .openSyllable, .vowel | .openSyllable, .trailing | .vowel, .vowel | .vowel, .trailing => false
  | .closedSyllable, .trailing | .trailing, .trailing => false
  | _, .extender | _, .nonJoiner | _, .linker | _, .joiner | _, .spacingMark => false
  | .prepended, _ => false
  | _, .consonant => back.conjunct != .linked
  | _, .pictograph => back.picture != .joined
  | _, .indicator => !back.oddIndicators
  | _, _ => true

/-- The clusters of `text` when `open'` holds the characters of the cluster under way, latest
first. -/
def split (back : Lookback) (open' : Text) : Text → List Text
  | [] => [open'.reverse]
  | c :: text =>
    let k := kind c
    if back.endsBefore k then open'.reverse :: split (back.next k) [c] text
    else split (back.next k) (c :: open') text

theorem split_flatten (back : Lookback) (open' text : Text) :
    (split back open' text).flatten = open'.reverse ++ text := by
  induction text generalizing back open' with
  | nil => simp [split]
  | cons c text ih =>
    simp only [split]
    split <;> simp [ih]

theorem ne_nil_of_mem_split {back : Lookback} {open' text cluster : Text} (ho : open' ≠ [])
    (h : cluster ∈ split back open' text) : cluster ≠ [] := by
  induction text generalizing back open' with
  | nil => simp_all [split]
  | cons c text ih =>
    simp only [split] at h
    split at h
    · rcases List.mem_cons.mp h with rfl | h
      · simpa using ho
      · exact ih (List.cons_ne_nil c []) h
    · exact ih (List.cons_ne_nil c open') h

end Cluster

/-- The extended grapheme clusters of a text. -/
def clusters : Text → List Text
  | [] => []
  | c :: text => Cluster.split (.first (Cluster.kind c)) [c] text

theorem clusters_flatten (text : Text) : (clusters text).flatten = text := by
  cases text with
  | nil => rfl
  | cons c text => simp [clusters, Cluster.split_flatten]

theorem ne_nil_of_mem_clusters {text cluster : Text} (h : cluster ∈ clusters text) :
    cluster ≠ [] := by
  cases text with
  | nil => simp [clusters] at h
  | cons c text => exact Cluster.ne_nil_of_mem_split (List.cons_ne_nil c []) h

/-- The numbers of characters before which a cluster ends, given the offset `start` of the first
cluster. -/
def boundariesFrom (start : Nat) : List Text → List Nat
  | [] => []
  | cluster :: rest =>
    (start + cluster.length) :: boundariesFrom (start + cluster.length) rest

/-- The offsets between the clusters of a text, its two ends included, ascending. -/
def boundaries (text : Text) : List Nat :=
  0 :: boundariesFrom 0 (clusters text)

/-- The largest of the ascending `bounds` that is at most `k`. -/
def floorIn (bounds : List Nat) (k : Nat) : Nat :=
  bounds.foldl (fun best b => if b ≤ k then b else best) 0

/-- The smallest of the ascending `bounds` that is at least `k`. -/
def ceilIn (bounds : List Nat) (k : Nat) : Nat :=
  (bounds.find? (k ≤ ·)).getD k

end Marginalia.Text
