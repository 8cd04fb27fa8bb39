/-! # Sets of indices

A finite set of highlight indices, kept as an ascending list.  `mem_insert` and `mem_erase` say
what the operations do to the members; the order is part of the type.
-/
namespace Marginalia

/-- A finite set of indices in ascending order. -/
structure IndexSet where
  toList : List Nat
  ascending : toList.Pairwise (· < ·)

namespace IndexSet

instance : Membership Nat IndexSet :=
  ⟨fun set i => i ∈ set.toList⟩

theorem mem_def {set : IndexSet} {i : Nat} : i ∈ set ↔ i ∈ set.toList := Iff.rfl

/-- The set with no members. -/
def empty : IndexSet :=
  ⟨[], List.Pairwise.nil⟩

@[simp] theorem not_mem_empty (i : Nat) : ¬ i ∈ empty := by
  simp [mem_def, empty]

/-- An ascending list with one more entry. -/
def insertInto (i : Nat) : List Nat → List Nat
  | [] => [i]
  | j :: js => if i < j then i :: j :: js else if i = j then j :: js else j :: insertInto i js

theorem mem_insertInto {i k : Nat} {js : List Nat} : k ∈ insertInto i js ↔ k = i ∨ k ∈ js := by
  induction js with
  | nil => simp [insertInto]
  | cons j js ih =>
    simp only [insertInto]
    split
    · simp
    · split
      · next h => subst h; simp
      · simp only [List.mem_cons, ih]
        constructor
        · rintro (h | h | h) <;> simp [h]
        · rintro (h | h | h) <;> simp [h]

theorem pairwise_insertInto {i : Nat} {js : List Nat} (h : js.Pairwise (· < ·)) :
    (insertInto i js).Pairwise (· < ·) := by
  induction js with
  | nil => simp [insertInto]
  | cons j js ih =>
    obtain ⟨hj, hjs⟩ := List.pairwise_cons.mp h
    simp only [insertInto]
    split
    · next hij =>
      refine List.pairwise_cons.mpr ⟨fun k hk => ?_, h⟩
      rcases List.mem_cons.mp hk with rfl | hk
      · exact hij
      · exact Nat.lt_trans hij (hj k hk)
    · split
      · exact h
      · refine List.pairwise_cons.mpr ⟨fun k hk => ?_, ih hjs⟩
        rcases mem_insertInto.mp hk with rfl | hk
        · omega
        · exact hj k hk

/-- The set with one more member. -/
def insert (set : IndexSet) (i : Nat) : IndexSet :=
  ⟨insertInto i set.toList, pairwise_insertInto set.ascending⟩

@[simp] theorem mem_insert {set : IndexSet} {i k : Nat} : k ∈ set.insert i ↔ k = i ∨ k ∈ set :=
  mem_insertInto

/-- The set without a member. -/
def erase (set : IndexSet) (i : Nat) : IndexSet :=
  ⟨set.toList.filter (· ≠ i), set.ascending.filter _⟩

@[simp] theorem mem_erase {set : IndexSet} {i k : Nat} : k ∈ set.erase i ↔ k ≠ i ∧ k ∈ set := by
  simp [mem_def, erase, and_comm]

/-- The set of the members of a list. -/
def ofList (indices : List Nat) : IndexSet :=
  indices.foldl insert empty

/-- The number of members. -/
def size (set : IndexSet) : Nat :=
  set.toList.length

end IndexSet

end Marginalia
