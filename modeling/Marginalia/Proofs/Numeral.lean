import Marginalia.Text.Number
import Mathlib.Data.List.Forall2
import Mathlib.Data.Nat.Digits.Defs

/-! # Numerals

Reading digits gives a number exactly if they are a numeral for it: one digit of the base after the
other, the letters among them in either case (`digitsValue?_eq_some`).
-/
namespace Marginalia.Text

/-- The character is the digit for the number, in either case. -/
def IsDigit (base : Nat) (c : Char) (d : Nat) : Prop :=
  d < base ∧ (c = Nat.digitChar d ∨ c = (Nat.digitChar d).toUpper)

/-- The digits, of which there is at least one, stand for the number. -/
def Numeral (base : Nat) (digits : Text) (n : Nat) : Prop :=
  ∃ values, values ≠ [] ∧ List.Forall₂ (IsDigit base) digits values ∧
    Nat.ofDigits base values.reverse = n

variable {base d n : Nat} {c : Char} {digits : Text}

theorem isAlphanum_of_isDigit (hbase : base ≤ 16) (h : IsDigit base c d) : c.isAlphanum = true := by
  have hall : ∀ d < 16, (Nat.digitChar d).isAlphanum = true ∧
      (Nat.digitChar d).toUpper.isAlphanum = true := by decide
  obtain ⟨hd, rfl | rfl⟩ := h
  · exact (hall d (Nat.lt_of_lt_of_le hd hbase)).1
  · exact (hall d (Nat.lt_of_lt_of_le hd hbase)).2

namespace Numeral

theorem isDigit (h : Numeral base digits n) : ∀ c ∈ digits, ∃ d, IsDigit base c d := by
  obtain ⟨values, -, hvalues, -⟩ := h
  intro c hc
  obtain ⟨i, hi, rfl⟩ := List.getElem_of_mem hc
  exact ⟨_, hvalues.get hi (hvalues.length_eq ▸ hi)⟩

theorem isAlphanum (hbase : base ≤ 16) (h : Numeral base digits n) :
    ∀ c ∈ digits, c.isAlphanum = true := by
  intro c hc
  obtain ⟨d, hd⟩ := h.isDigit c hc
  exact isAlphanum_of_isDigit hbase hd

end Numeral

/-! ### Reading numerals -/

theorem digitValue?_eq_filter (hbase : base ≤ 16) :
    digitValue? base c = (digitValue? 16 c).filter (· < base) := by
  simp only [digitValue?, Option.filter_filter]
  congr 1
  funext value
  rw [← Bool.decide_and, decide_eq_decide]
  omega

theorem digitValue?_sixteen : digitValue? 16 c = some d ↔ IsDigit 16 c d := by
  constructor
  · intro h
    obtain ⟨hvalue, hd⟩ := Option.filter_eq_some_iff.mp h
    refine ⟨of_decide_eq_true hd, ?_⟩
    have hdigit : ∀ n < 58, 48 ≤ n → Char.ofNat n = Nat.digitChar (n - 48) := by decide
    have hlower : ∀ n < 103, 97 ≤ n → Char.ofNat n = Nat.digitChar (n - 97 + 10) := by decide
    have hupper : ∀ n < 71, 65 ≤ n → Char.ofNat n = (Nat.digitChar (n - 65 + 10)).toUpper := by decide
    have hrange {low high : Char} (h : (decide (low ≤ c) && decide (c ≤ high)) = true) :
        low.toNat ≤ c.toNat ∧ c.toNat < high.toNat + 1 := by
      rw [Bool.and_eq_true, decide_eq_true_iff, decide_eq_true_iff] at h
      exact ⟨UInt32.le_iff_toNat_le.mp h.1, Nat.lt_succ_of_le (UInt32.le_iff_toNat_le.mp h.2)⟩
    rw [← Char.ofNat_toNat c]
    split at hvalue
    · next hin =>
      obtain rfl := Option.some.inj hvalue
      exact .inl (hdigit c.toNat (hrange hin).2 (hrange hin).1)
    · split at hvalue
      · next hin =>
        obtain rfl := Option.some.inj hvalue
        exact .inl (hlower c.toNat (hrange hin).2 (hrange hin).1)
      · split at hvalue
        · next hin =>
          obtain rfl := Option.some.inj hvalue
          exact .inr (hupper c.toNat (hrange hin).2 (hrange hin).1)
        · cases hvalue
  · have hall : ∀ d < 16, digitValue? 16 (Nat.digitChar d) = some d ∧
        digitValue? 16 (Nat.digitChar d).toUpper = some d := by decide
    rintro ⟨hd, rfl | rfl⟩
    · exact (hall d hd).1
    · exact (hall d hd).2

theorem digitValue?_eq_some (hbase : base ≤ 16) : digitValue? base c = some d ↔ IsDigit base c d := by
  rw [digitValue?_eq_filter hbase, Option.filter_eq_some_iff, digitValue?_sixteen, decide_eq_true_iff]
  constructor
  · rintro ⟨⟨-, hc⟩, hd⟩
    exact ⟨hd, hc⟩
  · rintro ⟨hd, hc⟩
    exact ⟨⟨Nat.lt_of_lt_of_le hd hbase, hc⟩, hd⟩

/-- Digits are read one after the other behind those that gave `m`. -/
theorem foldlM_digitValue? (hbase : base ≤ 16) {m : Nat} :
    digits.foldlM (fun value c => (digitValue? base c).map (value * base + ·)) m = some n ↔
      ∃ values, List.Forall₂ (IsDigit base) digits values ∧
        values.foldl (fun value d => value * base + d) m = n := by
  induction digits generalizing m with
  | nil => simp
  | cons c digits ih =>
    simp only [List.foldlM_cons, Option.bind_eq_bind, Option.bind_eq_some_iff, Option.map_eq_some_iff,
      digitValue?_eq_some hbase, ih, List.forall₂_cons_left_iff]
    constructor
    · rintro ⟨_, ⟨d, hd, rfl⟩, values, hvalues, rfl⟩
      exact ⟨d :: values, ⟨d, values, hd, hvalues, rfl⟩, rfl⟩
    · rintro ⟨_, ⟨d, values, hd, hvalues, rfl⟩, rfl⟩
      exact ⟨_, ⟨d, hd, rfl⟩, values, hvalues, rfl⟩

/-- **Reading digits.**  Digits are read as the number that they are a numeral for. -/
theorem digitsValue?_eq_some (hbase : base ≤ 16) :
    digitsValue? base digits = some n ↔ Numeral base digits n := by
  have hvalue (values : List Nat) : Nat.ofDigits base values.reverse =
      values.foldl (fun value d => value * base + d) 0 := by
    rw [Nat.ofDigits_eq_foldr, List.foldr_reverse]
    congr 1
    funext value d
    rw [Nat.mul_comm, Nat.add_comm]
    rfl
  cases digits with
  | nil => simp [digitsValue?, Numeral]
  | cons c digits =>
    rw [digitsValue?, List.isEmpty_cons, if_neg Bool.false_ne_true, foldlM_digitValue? hbase]
    refine exists_congr fun values => ?_
    rw [hvalue]
    constructor
    · rintro ⟨hvalues, hn⟩
      refine ⟨?_, hvalues, hn⟩
      rintro rfl
      cases hvalues
    · exact fun ⟨_, h⟩ => h

/-- A plus sign in front of the digits is passed over. -/
theorem number?_eq_some (hbase : base ≤ 16) : number? base digits = some n ↔
    Numeral base digits n ∨ ∃ after, digits = '+' :: after ∧ Numeral base after n := by
  unfold number?
  split
  · next after =>
    rw [digitsValue?_eq_some hbase]
    constructor
    · exact fun h => .inr ⟨after, rfl, h⟩
    · rintro (h | ⟨after, heq, h⟩)
      · exact absurd (h.isAlphanum hbase '+' List.mem_cons_self) (by decide)
      · rwa [(List.cons.inj heq).2]
  · next hne =>
    rw [digitsValue?_eq_some hbase]
    constructor
    · exact .inl
    · rintro (h | ⟨after, heq, -⟩)
      · exact h
      · exact absurd heq (hne after)

/-- A character is its code point. -/
theorem scalar?_eq_some : scalar? n = some c ↔ c.toNat = n := by
  unfold scalar?
  constructor
  · intro h
    split at h
    · next hvalid =>
      obtain rfl := Option.some.inj h
      simp only [Bool.or_eq_true, Bool.and_eq_true, decide_eq_true_iff] at hvalid
      have hchar : n.isValidChar := by
        rcases hvalid with hlow | ⟨hhigh, hlt⟩
        · exact .inl hlow
        · exact .inr ⟨by omega, hlt⟩
      rw [Char.ofNat, dif_pos hchar]
      rfl
    · cases h
  · rintro rfl
    rw [if_pos, Char.ofNat_toNat]
    simp only [Bool.or_eq_true, Bool.and_eq_true, decide_eq_true_iff]
    rcases c.valid with hlow | ⟨hhigh, hlt⟩
    · exact .inl hlow
    · exact .inr ⟨hhigh, hlt⟩

end Marginalia.Text
