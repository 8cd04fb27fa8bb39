import Marginalia.Proofs.Sentinel

/-! # Taking sentinels out

A sentinel is read at the front of a text exactly if the text begins with one that has from one to nine
digits (`Sentinel.read?_eq_some_iff`), so a text in which none is found has none anywhere
(`plain_iff`).

Sentinels are taken out in one go, so one may come about when others are taken out of it.  What is left
is put together from what was there: every part of it is left of a part of the text
(`exists_infix_of_stripSentinels`).  A character that is in no sentinel parts the text, and both sides
are stripped on their own (`stripSentinels_append_cons`).
-/
namespace Marginalia

open Text Sentinel

namespace Sentinel

/-- The digits are such that the sentinel is found. -/
structure Valid (sentinel : Sentinel) : Prop where
  digits : ∀ c ∈ sentinel.digits, isDecimalDigit c = true
  pos : 1 ≤ sentinel.digits.length
  length_le : sentinel.digits.length ≤ maxDigits

theorem valid_of_ofKind? {kind : Kind} {text rest : Text} {sentinel : Sentinel}
    (h : ofKind? kind text = some (sentinel, rest)) : sentinel.Valid := by
  unfold ofKind? at h
  split at h
  · cases h
  · next body hbody =>
    dsimp only at h
    split at h
    · next hlength =>
      obtain ⟨tail, -, heq⟩ := Option.map_eq_some_iff.mp h
      obtain ⟨rfl, rfl⟩ := Prod.mk.inj heq
      exact ⟨List.all_eq_true.mp List.all_takeWhile, hlength.1, hlength.2⟩
    · cases h

/-- A sentinel is read where its word stands. -/
theorem read?_eq_some_iff {text rest : Text} {sentinel : Sentinel} :
    read? text = some (sentinel, rest) ↔ sentinel.Valid ∧ text = sentinel.toText ++ rest := by
  constructor
  · intro h
    obtain ⟨kind, -, hkind⟩ := List.exists_of_findSome?_eq_some h
    exact ⟨valid_of_ofKind? hkind, eq_append_of_read? h⟩
  · rintro ⟨hvalid, rfl⟩
    exact read?_toText hvalid.digits hvalid.pos hvalid.length_le rest

theorem read?_eq_none_iff {text : Text} :
    read? text = none ↔ ∀ sentinel : Sentinel, sentinel.Valid → ¬ sentinel.toText <+: text := by
  constructor
  · rintro h sentinel hvalid ⟨rest, rfl⟩
    rw [read?_eq_some_iff.mpr ⟨hvalid, rfl⟩] at h
    cases h
  · intro h
    cases hread : read? text with
    | none => rfl
    | some found =>
      obtain ⟨hvalid, heq⟩ := read?_eq_some_iff.mp hread
      exact absurd ⟨found.2, heq.symm⟩ (h found.1 hvalid)

/-- What is not found stays so in a shorter text. -/
theorem read?_eq_none_mono {s t : Text} (h : read? t = none) (hst : s <+: t) :
    read? s = none :=
  read?_eq_none_iff.mpr fun sentinel hvalid hs =>
    read?_eq_none_iff.mp h sentinel hvalid (hs.trans hst)

/-! ### Texts without sentinels -/

/-- No sentinel stands in the text. -/
def Plain (text : Text) : Prop :=
  ∀ sentinel : Sentinel, sentinel.Valid → ¬ sentinel.toText <:+: text

theorem Plain.of_infix {s t : Text} (ht : Plain t) (h : s <:+: t) : Plain s :=
  fun sentinel hvalid hs => ht sentinel hvalid (hs.trans h)

theorem toText_ne_nil (sentinel : Sentinel) : sentinel.toText ≠ [] :=
  List.ne_nil_of_length_pos sentinel.length_toText_pos

/-- A text without sentinels is one in which none is found. -/
theorem plain_iff {text : Text} : Plain text ↔ (Marked.ofText text).sentinels = [] := by
  induction text with
  | nil =>
    rw [Marked.ofText]
    refine ⟨fun _ => rfl, fun _ sentinel _ h => ?_⟩
    exact sentinel.toText_ne_nil (List.infix_nil.mp h)
  | cons c text ih =>
    cases hread : read? (c :: text) with
    | none =>
      rw [Marked.ofText_cons_of_none hread, Marked.sentinels_push, ← ih]
      refine ⟨fun h => h.of_infix (List.suffix_cons c text).isInfix, fun h sentinel hvalid hs => ?_⟩
      rcases List.infix_cons_iff.mp hs with hs | hs
      · exact read?_eq_none_iff.mp hread sentinel hvalid hs
      · exact h sentinel hvalid hs
    | some found =>
      obtain ⟨hvalid, heq⟩ := read?_eq_some_iff.mp hread
      rw [Marked.ofText_of_read? hread]
      refine ⟨fun h => ?_, fun h => by cases h⟩
      exact absurd ⟨[], found.2, by rw [heq, List.nil_append]⟩ (h found.1 hvalid)

end Sentinel

/-! ### What is left -/

theorem stripSentinels_of_read? {text rest : Text} {sentinel : Sentinel}
    (h : read? text = some (sentinel, rest)) : stripSentinels text = stripSentinels rest := by
  rw [stripSentinels, stripSentinels, Marked.ofText_of_read? h]
  simp [Marked.literals]

theorem stripSentinels_cons_of_none {c : Char} {text : Text} (h : read? (c :: text) = none) :
    stripSentinels (c :: text) = c :: stripSentinels text := by
  rw [stripSentinels, Marked.ofText_cons_of_none h, Marked.literals_push]
  rfl

@[simp] theorem stripSentinels_nil : stripSentinels [] = [] := by
  rw [stripSentinels, Marked.ofText]
  rfl

/-- Nothing is taken out of a text without sentinels. -/
theorem stripSentinels_of_plain {text : Text} (h : Plain text) : stripSentinels text = text := by
  have hparts : (Marked.ofText text).parts = [] := List.map_eq_nil_iff.mp (plain_iff.mp h)
  have htext := Marked.toText_ofText text
  rw [Marked.toText, hparts] at htext
  rw [stripSentinels, Marked.literals, hparts]
  exact htext

/-- A front of what is left is left of a front. -/
theorem exists_prefix_of_stripSentinels {text part back : Text}
    (h : stripSentinels text = part ++ back) :
    ∃ front, front <+: text ∧ stripSentinels front = part := by
  induction text using Marked.ofText.induct generalizing part with
  | case1 =>
    rw [stripSentinels_nil] at h
    exact ⟨[], List.nil_prefix, by rw [(List.append_eq_nil_iff.mp h.symm).1, stripSentinels_nil]⟩
  | case2 c text sentinel rest hread ih =>
    obtain ⟨hvalid, heq⟩ := read?_eq_some_iff.mp hread
    rw [stripSentinels_of_read? hread] at h
    obtain ⟨front, hfront, hstrip⟩ := ih h
    refine ⟨sentinel.toText ++ front, ?_, ?_⟩
    · rw [heq]
      exact (List.prefix_append_right_inj _).mpr hfront
    · rw [stripSentinels_of_read? (read?_eq_some_iff.mpr ⟨hvalid, rfl⟩), hstrip]
  | case3 c text hread ih =>
    rw [stripSentinels_cons_of_none hread] at h
    cases part with
    | nil => exact ⟨[], List.nil_prefix, stripSentinels_nil⟩
    | cons d part =>
      obtain ⟨rfl, htail⟩ := List.cons.inj h
      obtain ⟨front, hfront, hstrip⟩ := ih htail
      have hcons : c :: front <+: c :: text := List.cons_prefix_cons.mpr ⟨rfl, hfront⟩
      refine ⟨c :: front, hcons, ?_⟩
      rw [stripSentinels_cons_of_none (read?_eq_none_mono hread hcons), hstrip]

/-- Every part of what is left is left of a part. -/
theorem exists_infix_of_stripSentinels {text part : Text} (h : part <:+: stripSentinels text) :
    ∃ factor, factor <:+: text ∧ stripSentinels factor = part := by
  induction text using Marked.ofText.induct with
  | case1 =>
    rw [stripSentinels_nil] at h
    exact ⟨[], List.infix_rfl, by rw [List.infix_nil.mp h, stripSentinels_nil]⟩
  | case2 c text sentinel rest hread ih =>
    rw [stripSentinels_of_read? hread] at h
    obtain ⟨factor, hfactor, hstrip⟩ := ih h
    refine ⟨factor, hfactor.trans ?_, hstrip⟩
    rw [eq_append_of_read? hread]
    exact (List.suffix_append _ _).isInfix
  | case3 c text hread ih =>
    rw [stripSentinels_cons_of_none hread] at h
    rcases List.infix_cons_iff.mp h with ⟨back, hback⟩ | h
    · rw [← stripSentinels_cons_of_none hread] at hback
      obtain ⟨front, hfront, hstrip⟩ := exists_prefix_of_stripSentinels hback.symm
      exact ⟨front, hfront.isInfix, hstrip⟩
    · obtain ⟨factor, hfactor, hstrip⟩ := ih h
      exact ⟨factor, hfactor.trans (List.suffix_cons c text).isInfix, hstrip⟩

/-- The character is in no sentinel. -/
def Foreign (c : Char) : Prop :=
  c.isAlpha = false ∧ isDecimalDigit c = false

instance (c : Char) : Decidable (Foreign c) :=
  inferInstanceAs (Decidable (_ ∧ _))

theorem Foreign.not_mem_toText {c : Char} (h : Foreign c) {sentinel : Sentinel}
    (hvalid : sentinel.Valid) : c ∉ sentinel.toText := by
  have hletters : (∀ d ∈ sentinel.kind.opening, d.isAlpha = true) ∧
      ∀ d ∈ sentinel.kind.closing, d.isAlpha = true := by
    cases sentinel.kind <;> decide
  intro hc
  rw [Sentinel.toText, List.mem_append, List.mem_append] at hc
  rcases hc with (hc | hc) | hc
  · exact Bool.false_ne_true (h.1.symm.trans (hletters.1 c hc))
  · exact Bool.false_ne_true (h.2.symm.trans (hvalid.digits c hc))
  · exact Bool.false_ne_true (h.1.symm.trans (hletters.2 c hc))

/-- A sentinel before a character that is in none ends before it. -/
theorem Foreign.ends_before {c : Char} (h : Foreign c) {sentinel : Sentinel}
    (hvalid : sentinel.Valid) {front back : Text} (hs : sentinel.toText <+: front ++ c :: back) :
    sentinel.toText <+: front := by
  rcases Nat.lt_or_ge front.length sentinel.toText.length with hlt | hge
  · obtain ⟨tail, htail⟩ :=
      List.prefix_of_prefix_length_le (List.prefix_append front _) hs (Nat.le_of_lt hlt)
    rw [← htail, List.prefix_append_right_inj] at hs
    cases tail with
    | nil =>
      rw [← htail] at hlt
      simp at hlt
    | cons d tail =>
      obtain ⟨rfl, -⟩ := List.cons_prefix_cons.mp hs
      exact absurd (by rw [← htail]; simp) (h.not_mem_toText hvalid)
  · exact List.prefix_of_prefix_length_le hs (List.prefix_append front _) hge

/-- A character that is in no sentinel parts the text. -/
theorem stripSentinels_append_cons {c : Char} (h : Foreign c) (front back : Text) :
    stripSentinels (front ++ c :: back) = stripSentinels front ++ c :: stripSentinels back := by
  induction front using Marked.ofText.induct with
  | case1 =>
    have hread : read? (c :: back) = none := by
      refine read?_eq_none_iff.mpr fun sentinel hvalid hs => sentinel.toText_ne_nil ?_
      have hnil : sentinel.toText <+: [] := h.ends_before hvalid hs
      exact List.prefix_nil.mp hnil
    rw [List.nil_append, stripSentinels_cons_of_none hread, stripSentinels_nil, List.nil_append]
  | case2 d front sentinel rest hread ih =>
    obtain ⟨hvalid, heq⟩ := read?_eq_some_iff.mp hread
    have hread' : read? (d :: front ++ c :: back) = some (sentinel, rest ++ c :: back) :=
      read?_eq_some_iff.mpr ⟨hvalid, by rw [heq, List.append_assoc]⟩
    rw [stripSentinels_of_read? hread, stripSentinels_of_read? hread', ih]
  | case3 d front hread ih =>
    have hread' : read? (d :: front ++ c :: back) = none :=
      read?_eq_none_iff.mpr fun sentinel hvalid hs =>
        read?_eq_none_iff.mp hread sentinel hvalid (h.ends_before hvalid hs)
    rw [List.cons_append] at hread' ⊢
    rw [stripSentinels_cons_of_none hread', stripSentinels_cons_of_none hread, ih,
      List.cons_append]

end Marginalia
