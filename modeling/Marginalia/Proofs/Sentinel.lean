import Marginalia.Proofs.Text
import Marginalia.Sentinel
import Mathlib.Algebra.Group.Nat.Defs
import Mathlib.Data.List.Infix

/-! # Reading sentinels back

A text without the opening words of sentinels can be cut anywhere: no sentinel is found in it, and
none begins in it and runs on into a sentinel that was put there.  So the sentinels written
between such texts, and no others, are found again (`Marked.ofText_append_sentinel`).

The reason is that no opening word overlaps itself or another one (`opening_no_overlap`); it is
checked over the three kinds.
-/
namespace Marginalia

open Text

namespace Sentinel

/-- A text in which no opening word of a sentinel occurs. -/
def Clean (text : Text) : Prop :=
  ∀ kind : Kind, ¬ kind.opening <:+: text

theorem Clean.of_infix {s t : Text} (ht : Clean t) (h : s <:+: t) : Clean s :=
  fun kind hk => ht kind (hk.trans h)

/-- The part of an opening word after its first letters is no front of an opening word, and none
is a front of it. -/
theorem opening_no_overlap (k k' : Kind) (n : Nat) (h0 : 0 < n) (hn : n < k.opening.length) :
    ¬ (k.opening.drop n).isPrefixOf k'.opening ∧ ¬ k'.opening.isPrefixOf (k.opening.drop n) := by
  have hlt : n < 10 := by
    have hlen : k.opening.length ≤ 9 := by cases k <;> decide
    omega
  have key : ∀ m : Fin 10, 0 < m.val → m.val < k.opening.length →
      ¬ (k.opening.drop m.val).isPrefixOf k'.opening ∧
        ¬ k'.opening.isPrefixOf (k.opening.drop m.val) := by
    cases k <;> cases k' <;> decide
  exact key ⟨n, hlt⟩ h0 hn

/-- No opening word stands at the front of a clean text that a sentinel follows. -/
theorem not_opening_prefix {c : Char} {literal : Text} (hl : Clean (c :: literal)) (k k' : Kind)
    (rest : Text) : ¬ k.opening <+: c :: literal ++ (k'.opening ++ rest) := by
  intro h
  rcases Nat.lt_or_ge (c :: literal).length k.opening.length with hlt | hge
  · obtain ⟨tail, htail⟩ :=
      List.prefix_of_prefix_length_le (List.prefix_append (c :: literal) _) h (Nat.le_of_lt hlt)
    have hdrop : k.opening.drop (c :: literal).length = tail := by rw [← htail]; simp
    rw [← htail, List.prefix_append_right_inj] at h
    obtain ⟨h₁, h₂⟩ := opening_no_overlap k k' (c :: literal).length (by simp) hlt
    rw [hdrop, List.isPrefixOf_iff_prefix] at h₁ h₂
    rcases Nat.le_total tail.length k'.opening.length with hle | hle
    · exact h₁ (List.prefix_of_prefix_length_le h (List.prefix_append _ _) hle)
    · exact h₂ (List.prefix_of_prefix_length_le (List.prefix_append _ _) h hle)
  · have hp := List.prefix_of_prefix_length_le h (List.prefix_append (c :: literal) _) hge
    exact hl k hp.isInfix

theorem ofKind?_eq_none {kind : Kind} {text : Text} (h : ¬ kind.opening <+: text) :
    ofKind? kind text = none := by
  unfold ofKind?
  rw [isPrefixOf?_eq_none h]

theorem read?_eq_none {text : Text} (h : ∀ kind : Kind, ¬ kind.opening <+: text) :
    read? text = none := by
  unfold read?
  rw [List.findSome?_eq_none_iff]
  intro kind _
  exact ofKind?_eq_none (h kind)

/-- Two opening words are fronts of one text only if they are the same. -/
theorem opening_inj {k k' : Kind} {rest : Text} (h : k.opening <+: k'.opening ++ rest) :
    k = k' := by
  rcases Nat.le_total k.opening.length k'.opening.length with hle | hle
  · have hp := List.prefix_of_prefix_length_le h (List.prefix_append _ _) hle
    rw [← List.isPrefixOf_iff_prefix] at hp
    revert hp
    cases k <;> cases k' <;> decide
  · have hp := List.prefix_of_prefix_length_le (List.prefix_append _ _) h hle
    rw [← List.isPrefixOf_iff_prefix] at hp
    revert hp
    cases k <;> cases k' <;> decide

theorem stops_closing (kind : Kind) (rest : Text) :
    Stops isDecimalDigit (kind.closing ++ rest) := by
  obtain ⟨tail, htail⟩ : ∃ tail, kind.closing = 'E' :: tail := by
    cases kind <;> exact ⟨_, rfl⟩
  rw [htail, List.cons_append, stops_cons]
  decide

/-- A sentinel with one to nine digits is read at the front of a text. -/
theorem read?_toText {sentinel : Sentinel} (hd : ∀ c ∈ sentinel.digits, isDecimalDigit c = true)
    (hpos : 1 ≤ sentinel.digits.length) (hmax : sentinel.digits.length ≤ maxDigits)
    (rest : Text) : read? (sentinel.toText ++ rest) = some (sentinel, rest) := by
  obtain ⟨kind, digits⟩ := sentinel
  have htext : toText ⟨kind, digits⟩ ++ rest =
      kind.opening ++ (digits ++ (kind.closing ++ rest)) := by
    simp [toText]
  obtain ⟨htake, hdrop⟩ := takeWhile_append_stop hd (stops_closing kind rest)
  have hown : ofKind? kind (kind.opening ++ (digits ++ (kind.closing ++ rest))) =
      some (⟨kind, digits⟩, rest) := by
    unfold ofKind?
    rw [isPrefixOf?_append]
    simp only [htake, hdrop]
    rw [if_pos ⟨hpos, hmax⟩, isPrefixOf?_append]
    rfl
  have hother (k : Kind) (hk : k ≠ kind) :
      ofKind? k (kind.opening ++ (digits ++ (kind.closing ++ rest))) = none :=
    ofKind?_eq_none fun h => hk (opening_inj h)
  rw [htext, read?]
  cases kind with
  | start => simp [Kind.all, hown]
  | stop => simp [Kind.all, hown, hother .start (by decide)]
  | anchor => simp [Kind.all, hown, hother .start (by decide), hother .stop (by decide)]

/-! ### Sentinels with an index -/

/-- One more than the largest index that a sentinel can hold. -/
def indexBound : Nat := 10 ^ maxDigits

theorem length_decimal_le {i : Nat} (h : i < indexBound) : (decimal i).length ≤ maxDigits :=
  (Nat.length_toDigits_le_iff (by decide) (by decide)).mpr h

theorem isDigit_of_mem_decimal {i : Nat} {c : Char} (h : c ∈ decimal i) : c.isDigit = true :=
  Nat.isDigit_of_mem_toDigits (by decide) (by decide) h

theorem index?_ofIndex (kind : Kind) (i : Nat) : (ofIndex kind i).index? = some i := by
  have hall : (decimal i).all Char.isDigit = true :=
    List.all_eq_true.mpr fun _ hc => isDigit_of_mem_decimal hc
  have hvalue : valueOf (decimal i) = i := by
    have h := Nat.ofDigitChars_ten_toDigits (n := i)
    rw [Nat.ofDigitChars_eq_foldl] at h
    simpa only [valueOf, decimal, Nat.mul_comm] using h
  simp only [index?, ofIndex, hall, if_true, hvalue]

/-- A sentinel written for an index is read back. -/
theorem read?_ofIndex {kind : Kind} {i : Nat} (h : i < indexBound) (rest : Text) :
    read? ((ofIndex kind i).toText ++ rest) = some (ofIndex kind i, rest) := by
  refine read?_toText ?_ ?_ (length_decimal_le h) rest
  · intro c hc
    exact isDecimalDigit_of_isDigit (isDigit_of_mem_decimal hc)
  · exact Nat.length_toDigits_pos

end Sentinel

namespace Marked

open Sentinel

theorem ofText_cons_of_none {c : Char} {text : Text} (h : read? (c :: text) = none) :
    ofText (c :: text) = (ofText text).push c := by
  rw [ofText]
  split
  · next heq => rw [h] at heq; cases heq
  · rfl

theorem ofText_of_read? {text rest : Text} {sentinel : Sentinel}
    (h : read? text = some (sentinel, rest)) :
    ofText text = ⟨([], sentinel) :: (ofText rest).parts, (ofText rest).tail⟩ := by
  cases text with
  | nil =>
    have hlen := congrArg List.length (eq_append_of_read? h)
    have := sentinel.length_toText_pos
    simp at hlen
    omega
  | cons c text =>
    rw [ofText]
    split
    · next s r heq =>
      rw [h] at heq
      obtain ⟨rfl, rfl⟩ := Prod.mk.inj (Option.some.inj heq)
      rfl
    · next heq => rw [h] at heq; cases heq

/-- A clean text has no sentinel. -/
theorem ofText_of_clean {literal : Text} (h : Clean literal) : ofText literal = ⟨[], literal⟩ := by
  induction literal with
  | nil => rw [ofText]
  | cons c literal ih =>
    have hread : read? (c :: literal) = none := read?_eq_none fun kind hp => h kind hp.isInfix
    rw [ofText_cons_of_none hread, ih (h.of_infix (List.suffix_cons c literal).isInfix)]
    rfl

/-- The first sentinel found after a clean text is the one written there. -/
theorem ofText_append_sentinel {literal : Text} (h : Clean literal) (kind : Kind) {i : Nat}
    (hi : i < indexBound) (rest : Text) :
    ofText (literal ++ ((ofIndex kind i).toText ++ rest)) =
      ⟨(literal, ofIndex kind i) :: (ofText rest).parts, (ofText rest).tail⟩ := by
  induction literal with
  | nil => exact ofText_of_read? (read?_ofIndex hi rest)
  | cons c literal ih =>
    have hread : read? (c :: literal ++ ((ofIndex kind i).toText ++ rest)) = none := by
      refine read?_eq_none fun k => ?_
      have htext : (ofIndex kind i).toText ++ rest =
          kind.opening ++ (decimal i ++ (kind.closing ++ rest)) := by
        simp only [Sentinel.toText, ofIndex, List.append_assoc]
      rw [htext]
      exact not_opening_prefix h k kind _
    rw [List.cons_append] at hread ⊢
    rw [ofText_cons_of_none hread, ih (h.of_infix (List.suffix_cons c literal).isInfix)]
    rfl

end Marked

end Marginalia
