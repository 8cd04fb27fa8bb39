import Marginalia.Proofs.RoundTrip
import Marginalia.Proofs.Stripping
import Mathlib.Algebra.GroupWithZero.Nat

/-! # Where an unknown mark is reported

The check of the round trip reports the first mark that belongs to no injected highlight, and the byte
where it begins.  Tokens do not remember bytes, so the check adds up what the tokens before the mark are
written as.  That is the byte in the text only if these tokens are written as they were read.

Two things come in between.  The zeros in front of an index are not written again (`Marked.padding`).
And a sentinel with digits of another script stays in the run of text, which is given out before it and
once more behind it (`Marked.repeated`).  `unknownIndex_located` says that nothing else does: the byte
that is reported is that of the mark without the first number and with the second one.  Behind sentinels
that injection could have written it is right.
-/
namespace Marginalia

open Text Sentinel

/-! ### Zeros in front of an index -/

namespace Sentinel

variable {digits : Text} {sentinel : Sentinel} {i : Nat}

/-- A digit is what its value is written as. -/
theorem decimal_of_isDigit {c : Char} (h : c.isDigit = true) :
    c.toNat - '0'.toNat < 10 ∧ decimal (c.toNat - '0'.toNat) = [c] := by
  have hrange : 48 ≤ c.toNat ∧ c.toNat ≤ 57 := by
    simpa [Char.isDigit, UInt32.le_iff_toNat_le] using h
  have hlt : c.toNat - '0'.toNat < 10 := by
    show c.toNat - 48 < 10
    omega
  refine ⟨hlt, ?_⟩
  rw [decimal, Nat.toDigits_of_lt_base hlt, List.singleton_inj]
  apply Char.toNat_inj.mp
  rw [Nat.toNat_digitChar_of_lt_ten hlt]
  show 48 + (c.toNat - 48) = c.toNat
  omega

theorem valueOf_append_singleton (digits : Text) (c : Char) :
    valueOf (digits ++ [c]) = 10 * valueOf digits + (c.toNat - '0'.toNat) := by
  simp [valueOf, Nat.mul_comm]

/-- Digits are the number that they give, with zeros in front. -/
theorem eq_padded_valueOf (hdigits : ∀ c ∈ digits, c.isDigit = true) (hne : digits ≠ []) :
    digits = padded digits.length (valueOf digits) := by
  induction digits using List.reverseRecOn with
  | nil => exact absurd rfl hne
  | append_singleton digits c ih =>
    obtain ⟨hlt, hc⟩ := decimal_of_isDigit (hdigits c (by simp))
    rw [valueOf_append_singleton, padded, List.length_append, List.length_singleton]
    by_cases hnil : digits = []
    · subst hnil
      rw [show valueOf [] = 0 from rfl, Nat.mul_zero, Nat.zero_add, hc]
      rfl
    · have hfront := ih (fun d hd => hdigits d (List.mem_append_left _ hd)) hnil
      rcases Nat.eq_zero_or_pos (valueOf digits) with hzero | hpos
      · -- All digits so far are zeros, the last of which was the number.
        have hlength : digits.length - 1 + 1 = digits.length :=
          Nat.sub_add_cancel (List.length_pos_iff.mpr hnil)
        have hzeros : digits = List.replicate digits.length '0' := by
          rw [← hlength, List.replicate_succ']
          rw [hzero] at hfront
          exact hfront
        rw [hzero, Nat.mul_zero, Nat.zero_add, hc, List.length_singleton, Nat.add_sub_cancel, ← hzeros]
      · have hsplit : decimal (10 * valueOf digits + (c.toNat - '0'.toNat)) =
            decimal (valueOf digits) ++ [c] := by
          rw [← hc]
          exact (Nat.toDigits_append_toDigits (by decide) hpos hlt).symm
        rw [hsplit, List.length_append, List.length_singleton, Nat.add_sub_add_right,
          ← List.append_assoc]
        exact congrArg (· ++ [c]) hfront

/-- The number of zeros in front of the index. -/
def padding (sentinel : Sentinel) : Nat :=
  match sentinel.index? with
  | some index => sentinel.digits.length - (decimal index).length
  | none => 0

theorem padding_of_none (h : sentinel.index? = none) : sentinel.padding = 0 := by
  rw [padding, h]

@[simp] theorem padding_ofIndex (kind : Kind) (i : Nat) : (ofIndex kind i).padding = 0 := by
  rw [padding, index?_ofIndex]
  exact Nat.sub_self _

theorem isDigit_of_index? (h : sentinel.index? = some i) :
    (∀ c ∈ sentinel.digits, c.isDigit = true) ∧ valueOf sentinel.digits = i := by
  unfold index? at h
  split at h
  · next hall => exact ⟨List.all_eq_true.mp hall, Option.some.inj h⟩
  · cases h

/-- A sentinel is longer by the zeros than the one that is written for its index. -/
theorem byteLength_ofIndex (hvalid : sentinel.Valid) (h : sentinel.index? = some i) :
    (ofIndex sentinel.kind i).toText.byteLength + sentinel.padding =
      sentinel.toText.byteLength := by
  obtain ⟨hdigits, rfl⟩ := isDigit_of_index? h
  have hzeros (n : Nat) : byteLength (List.replicate n '0') = n := by
    induction n with
    | zero => rfl
    | succ n ih =>
      rw [List.replicate_succ, byteLength_cons, ih, Nat.add_comm]
      rfl
  have hwritten : sentinel.digits.byteLength = sentinel.padding +
      (decimal (valueOf sentinel.digits)).byteLength := by
    conv => lhs; rw [eq_padded_valueOf hdigits (List.length_pos_iff.mp hvalid.pos)]
    rw [padded, byteLength_append, hzeros, padding, h]
  simp only [toText, ofIndex, byteLength_append, hwritten]
  omega

end Sentinel

/-! ### What tokens are written as -/

namespace Token

variable {tokens front back : List Token} {expected offset : Nat}

/-- The number of bytes that tokens are written as. -/
def writtenLength (tokens : List Token) : Nat :=
  byteLength (tokens.flatMap write)

@[simp] theorem writtenLength_nil : writtenLength [] = 0 := rfl

@[simp] theorem writtenLength_text (t : Text) (tokens : List Token) :
    writtenLength (text t :: tokens) = t.byteLength + writtenLength tokens :=
  byteLength_append _ _

@[simp] theorem writtenLength_mark (kind : Kind) (i : Nat) (tokens : List Token) :
    writtenLength (mark kind i :: tokens) =
      (ofIndex kind i).toText.byteLength + writtenLength tokens :=
  byteLength_append _ _

@[simp] theorem writtenLength_append (ts us : List Token) :
    writtenLength (ts ++ us) = writtenLength ts + writtenLength us := by
  rw [writtenLength, List.flatMap_append, byteLength_append]
  rfl

/-- The check passes over tokens whose marks are known, and counts what they are written as. -/
theorem unknownIndex?_append (h : ∀ kind i, (kind, i) ∈ marks front → i < expected) :
    unknownIndex? expected offset (front ++ back) =
      unknownIndex? expected (offset + writtenLength front) back := by
  induction front generalizing offset with
  | nil => rfl
  | cons token front ih =>
    cases token with
    | text t =>
      rw [List.cons_append, unknownIndex?, ih h, writtenLength_text, Nat.add_assoc]
    | mark kind i =>
      have hfront := fun k j hkj => h k j (List.mem_cons_of_mem _ hkj)
      rw [List.cons_append, unknownIndex?, if_pos (h kind i (by simp)), ih hfront,
        writtenLength_mark, Nat.add_assoc]

theorem missing?_ne_unknownIndex {index i o : Nat} :
    missing? tokens expected index ≠ some (.unknownIndex i o) := by
  fun_induction missing? tokens expected index with
  | case1 index hindex kind hfind => simp
  | case2 index hindex hfind ih => exact ih
  | case3 index hge => simp

/-- Only the search for an unknown mark reports one. -/
theorem unknownIndex?_of_checkRoundTrip {index o : Nat}
    (h : checkRoundTrip tokens expected = .error (.unknownIndex index o)) :
    unknownIndex? expected 0 tokens = some (.unknownIndex index o) := by
  unfold checkRoundTrip at h
  split at h
  · next error herror =>
    rw [herror, Except.error.inj h]
  · split at h
    · next error herror =>
      rw [Except.error.inj h] at herror
      exact absurd herror missing?_ne_unknownIndex
    · cases h

end Token

/-! ### What the text before a mark is written as -/

namespace Marked

/-- The number of zeros in front of the indices. -/
def padding (marked : Marked) : Nat :=
  (marked.sentinels.map Sentinel.padding).sum

/-- The number of bytes that are given out once more while parts are read, with `run` under way: at a
sentinel without an index the run is given out and kept. -/
def repeatedFrom (run : Text) : List (Text × Sentinel) → Nat
  | [] => 0
  | (literal, sentinel) :: parts =>
    if sentinel.index?.isSome then repeatedFrom [] parts
    else (run ++ literal).byteLength + repeatedFrom (run ++ literal ++ sentinel.toText) parts

/-- The number of bytes that are given out once more while a text is read. -/
def repeated (marked : Marked) : Nat :=
  repeatedFrom [] marked.parts

theorem valid_of_mem_sentinels {text : Text} {sentinel : Sentinel}
    (h : sentinel ∈ (ofText text).sentinels) : sentinel.Valid := by
  fun_induction ofText text with
  | case1 => simp [sentinels] at h
  | case2 c text found rest hread marked ih =>
    rcases List.mem_cons.mp h with rfl | h
    · exact (read?_eq_some_iff.mp hread).1
    · exact ih h
  | case3 c text hread ih =>
    rw [sentinels_push] at h
    exact ih h

end Marked

namespace Token

namespace Reader

variable {reader mid after : Reader} {literal : Text} {sentinel : Sentinel}
  {parts parts' : List (Text × Sentinel)}

theorem writtenLength_given : writtenLength (reader.given literal).reverse =
    writtenLength reader.tokens.reverse + byteLength (reader.run ++ literal) := by
  unfold given
  split
  · next h =>
    rw [Bool.and_eq_true, List.isEmpty_iff] at h
    rw [h.1, byteLength_nil, Nat.add_zero]
  · simp

/-- The number of bytes that the tokens so far and the run of text under way are written as. -/
def spent (reader : Reader) : Nat :=
  writtenLength reader.tokens.reverse + reader.run.byteLength

/-- Reading parts spends their bytes, without the zeros in front of indices and with what is given out
once more. -/
theorem spent_nextAll (hvalid : ∀ part ∈ parts, part.2.Valid)
    (hnext : reader.nextAll parts = .ok after) :
    after.spent + (parts.map (·.2.padding)).sum = reader.spent +
      byteLength (parts.flatMap fun part => part.1 ++ part.2.toText) +
        Marked.repeatedFrom reader.run parts := by
  induction parts generalizing reader with
  | nil =>
    obtain rfl : reader = after := Except.ok.inj hnext
    rfl
  | cons part parts ih =>
    obtain ⟨literal, sentinel⟩ := part
    obtain ⟨mid, hmid, hrest⟩ := nextAll_cons.mp hnext
    obtain ⟨hfirst, hvalid⟩ := List.forall_mem_cons.mp hvalid
    have hparts := ih hvalid hrest
    rw [List.map_cons, List.sum_cons, List.flatMap_cons, byteLength_append, byteLength_append,
      Marked.repeatedFrom]
    dsimp only at hmid hfirst ⊢
    rcases next_cases hmid with ⟨hnone, rfl⟩ | ⟨i, hsome, -, rfl⟩
    · have hindex : sentinel.index? = none := Option.map_eq_none_iff.mp hnone
      rw [hindex, Sentinel.padding_of_none hindex]
      simp only [spent, writtenLength_given, byteLength_append] at hparts ⊢
      simp only [Option.isSome_none, Bool.false_eq_true, if_false]
      omega
    · have hindex : sentinel.index? = some i := by
        obtain ⟨j, hj, heq⟩ := Option.map_eq_some_iff.mp hsome
        rw [hj, (Prod.mk.inj heq).2]
      have hlength := byteLength_ofIndex hfirst hindex
      rw [hindex]
      simp only [spent, List.reverse_cons, writtenLength_append, writtenLength_given,
        writtenLength_mark, writtenLength_nil, byteLength_append, byteLength_nil] at hparts ⊢
      simp only [Option.isSome_some, if_true]
      omega

theorem nextAll_append : reader.nextAll (parts ++ parts') = .ok after ↔
    ∃ mid, reader.nextAll parts = .ok mid ∧ mid.nextAll parts' = .ok after := by
  induction parts generalizing reader with
  | nil => exact ⟨fun h => ⟨reader, rfl, h⟩, fun ⟨mid, hmid, h⟩ => Except.ok.inj hmid ▸ h⟩
  | cons part parts ih =>
    rw [List.cons_append, nextAll_cons]
    simp only [ih, nextAll_cons]
    constructor
    · rintro ⟨first, hfirst, mid, hmid, h⟩
      exact ⟨mid, ⟨first, hfirst, hmid⟩, h⟩
    · rintro ⟨mid, ⟨first, hfirst, hmid⟩, h⟩
      exact ⟨first, hfirst, mid, hmid, h⟩

/-- What was read stays. -/
theorem tokens_suffix_nextAll (hnext : reader.nextAll parts = .ok after) :
    reader.tokens <:+ after.tokens := by
  induction parts generalizing reader with
  | nil =>
    obtain rfl : reader = after := Except.ok.inj hnext
    exact List.suffix_rfl
  | cons part parts ih =>
    obtain ⟨mid, hmid, hrest⟩ := nextAll_cons.mp hnext
    have hgiven : reader.tokens <:+ reader.given part.1 := by
      unfold given
      split
      · exact List.suffix_rfl
      · exact List.suffix_cons _ _
    refine List.IsSuffix.trans ?_ (ih hrest)
    rcases next_cases hmid with ⟨-, rfl⟩ | ⟨i, -, -, rfl⟩
    · exact hgiven
    · exact hgiven.trans (List.suffix_cons _ _)

theorem exists_finish (hsuffix : reader.tokens <:+ after.tokens) (tail : Text) :
    ∃ more, after.finish tail = reader.tokens.reverse ++ more := by
  obtain ⟨last, hlast⟩ := hsuffix
  unfold finish
  dsimp only
  split
  · exact ⟨last.reverse, by rw [← hlast, List.reverse_append]⟩
  · exact ⟨last.reverse ++ [text (after.run ++ tail)], by
      rw [List.reverse_cons, ← hlast, List.reverse_append, List.append_assoc]⟩

end Reader

end Token

/-! ### The byte that is reported -/

/-- Behind sentinels that injection could have written no zeros are left out and nothing is given out
once more. -/
theorem Marked.padding_repeated_of_ofIndex {front : Marked}
    (h : ∀ s ∈ front.sentinels, ∃ i, s = ofIndex s.kind i) :
    front.padding = 0 ∧ front.repeated = 0 := by
  obtain ⟨parts, tail⟩ := front
  unfold Marked.padding Marked.repeated
  induction parts with
  | nil => exact ⟨rfl, rfl⟩
  | cons part parts ih =>
    obtain ⟨literal, sentinel⟩ := part
    obtain ⟨⟨i, hi⟩, hparts⟩ := List.forall_mem_cons.mp h
    obtain ⟨hpadding, hrepeated⟩ := ih hparts
    dsimp only at hi
    refine ⟨?_, ?_⟩
    · have hfirst : sentinel.padding = 0 := by rw [hi, padding_ofIndex]
      exact Nat.add_eq_zero_iff.mpr ⟨hfirst, hpadding⟩
    · rw [Marked.repeatedFrom, hi, index?_ofIndex]
      exact hrepeated

namespace Token

/-- The sentinel behind `front` is the first of the text whose index, here `i`, is not below
`expected`. -/
structure FirstUnknown (text : Text) (expected : Nat) (front : Marked) (sentinel : Sentinel)
    (i : Nat) : Prop where
  found : ∃ parts, (Marked.ofText text).parts = front.parts ++ (front.tail, sentinel) :: parts
  index : sentinel.index? = some i
  unknown : expected ≤ i
  first : ∀ s ∈ front.sentinels, ∀ j ∈ s.index?, j < expected

variable {text : Text} {tokens : List Token} {expected index offset i : Nat} {front : Marked}
  {sentinel : Sentinel}

/-- A sentinel that is found stands behind what was read before it. -/
theorem FirstUnknown.exists_append (h : FirstUnknown text expected front sentinel i) :
    ∃ rest, text = front.toText ++ (sentinel.toText ++ rest) := by
  obtain ⟨parts, hparts⟩ := h.found
  refine ⟨Marked.toText ⟨parts, (Marked.ofText text).tail⟩, ?_⟩
  conv => lhs; rw [← Marked.toText_ofText text]
  simp only [Marked.toText, hparts, List.flatMap_append, List.flatMap_cons, List.append_assoc]

/-- Where an index is not below `expected`, one comes first. -/
theorem exists_firstUnknown {kind : Kind} (hmem : (kind, i) ∈ (Marked.ofText text).marks)
    (hi : expected ≤ i) : ∃ front sentinel j, FirstUnknown text expected front sentinel j := by
  rw [Marked.marks_eq, List.mem_filterMap] at hmem
  obtain ⟨part, hpart, hmark⟩ := hmem
  obtain ⟨j, hj, heq⟩ := Option.map_eq_some_iff.mp hmark
  obtain ⟨-, rfl⟩ := Prod.mk.inj heq
  have hsome : ((Marked.ofText text).parts.find?
      fun part => part.2.index?.any (decide <| expected ≤ ·)).isSome = true := by
    rw [List.find?_isSome]
    exact ⟨part, hpart, by rw [hj]; exact decide_eq_true hi⟩
  obtain ⟨found, hfound⟩ := Option.isSome_iff_exists.mp hsome
  obtain ⟨hunknown, before, after, hparts, hfirst⟩ := List.find?_eq_some_iff_append.mp hfound
  obtain ⟨k, hk, hle⟩ := (Option.any_eq_true _ _).mp hunknown
  refine ⟨⟨before, found.1⟩, found.2, k, ⟨after, hparts⟩, hk, of_decide_eq_true hle, ?_⟩
  intro s hs l hl
  obtain ⟨earlier, hearlier, rfl⟩ := List.mem_map.mp hs
  have hknown := hfirst earlier hearlier
  rw [Bool.not_eq_true', Option.any_eq_false] at hknown
  exact Nat.not_le.mp (of_decide_eq_false (hknown l hl))

/-- The check reports the first unknown sentinel of the text, and what the text before it is written
as. -/
theorem FirstUnknown.unknownIndex?_eq (h : FirstUnknown text expected front sentinel i)
    (hread : ofText text = .ok tokens) : ∃ written,
      unknownIndex? expected 0 tokens = some (.unknownIndex i written) ∧
        written + front.padding = front.toText.byteLength + front.repeated := by
  obtain ⟨reader, hreader, -, rfl⟩ := ofText_eq_ok_iff.mp hread
  obtain ⟨parts, hparts⟩ := h.found
  rw [hparts] at hreader
  obtain ⟨mid, hmid, hrest⟩ := Reader.nextAll_append.mp hreader
  obtain ⟨next, hnext, hrest⟩ := Reader.nextAll_cons.mp hrest
  dsimp only at hnext
  -- The marks before the sentinel are known, so the check comes to it.
  have hmarks := (Reader.records_start.nextAll hmid).tokens
  rw [List.nil_append] at hmarks
  have hknown : ∀ kind j, (kind, j) ∈ marks (mid.given front.tail).reverse → j < expected := by
    intro kind j hmem
    rw [Reader.marks_given, hmarks, List.mem_filterMap] at hmem
    obtain ⟨part, hpart, hmark⟩ := hmem
    obtain ⟨k, hk, heq⟩ := Option.map_eq_some_iff.mp hmark
    obtain ⟨-, rfl⟩ := Prod.mk.inj heq
    exact h.first part.2 (List.mem_map_of_mem hpart) k hk
  have hvalid : ∀ part ∈ front.parts, part.2.Valid := by
    intro part hpart
    have hmem : part ∈ (Marked.ofText text).parts := by
      rw [hparts]
      exact List.mem_append_left _ hpart
    exact Marked.valid_of_mem_sentinels (List.mem_map_of_mem hmem)
  have hspent := Reader.spent_nextAll hvalid hmid
  rcases Reader.next_cases hnext with ⟨hnone, -⟩ | ⟨j, hsome, -, rfl⟩
  · rw [Sentinel.mark?, h.index] at hnone
    cases hnone
  · obtain rfl : i = j := by
      rw [Sentinel.mark?, h.index] at hsome
      exact (Prod.mk.inj (Option.some.inj hsome)).2
    obtain ⟨more, hfinish⟩ :=
      Reader.exists_finish (Reader.tokens_suffix_nextAll hrest) (Marked.ofText text).tail
    refine ⟨writtenLength (mid.given front.tail).reverse, ?_, ?_⟩
    · rw [hfinish, List.reverse_cons, List.append_assoc, unknownIndex?_append hknown,
        List.singleton_append, unknownIndex?, if_neg (Nat.not_lt.mpr h.unknown), Nat.zero_add]
    · have hstart : Reader.start.spent = 0 := rfl
      have hrun : Reader.start.run = [] := rfl
      rw [hstart, hrun] at hspent
      rw [Reader.writtenLength_given, Marked.toText, Marked.padding, Marked.sentinels, List.map_map,
        Marked.repeated]
      simp only [Reader.spent, byteLength_append] at hspent ⊢
      simp only [Function.comp_def] at hspent ⊢
      omega

/-- **Where an unknown mark is reported.**  What is reported is the first sentinel whose index is not
below `expected`, and the byte where it begins in the text, less the zeros in front of the indices before
it, and with the bytes that are given out once more before it.  Behind sentinels that injection could
have written the byte is right. -/
theorem unknownIndex_located (hread : ofText text = .ok tokens)
    (hcheck : checkRoundTrip tokens expected = .error (.unknownIndex index offset)) :
    ∃ front sentinel rest, FirstUnknown text expected front sentinel index ∧
      text = front.toText ++ (sentinel.toText ++ rest) ∧
      offset + front.padding = front.toText.byteLength + front.repeated ∧
      ((∀ s ∈ front.sentinels, ∃ i, s = ofIndex s.kind i) → offset = front.toText.byteLength) := by
  have hreported := unknownIndex?_of_checkRoundTrip hcheck
  have hunknown : ∃ kind i, (kind, i) ∈ marks tokens ∧ expected ≤ i := by
    by_contra hno
    push Not at hno
    rw [unknownIndex?_eq_none 0 hno] at hreported
    cases hreported
  obtain ⟨kind, i, hmem, hi⟩ := hunknown
  rw [marks_of_ofText hread] at hmem
  obtain ⟨front, sentinel, j, hfirst⟩ := exists_firstUnknown hmem hi
  obtain ⟨written, hwritten, hbytes⟩ := hfirst.unknownIndex?_eq hread
  rw [hwritten] at hreported
  obtain ⟨rfl, rfl⟩ := TokenError.unknownIndex.inj (Option.some.inj hreported)
  obtain ⟨rest, htext⟩ := hfirst.exists_append
  refine ⟨front, sentinel, rest, hfirst, htext, hbytes, fun hplain => ?_⟩
  obtain ⟨hpadding, hrepeated⟩ := Marked.padding_repeated_of_ofIndex hplain
  omega

/-- An anchor behind a digit of another script, which repeats two bytes, and a zero that is left out. -/
theorem unknownIndex_located_anchor :
    let text := "éHLSTART\u0663ENDHLHLSTART00ENDHLHLEND0ENDHLANNMARKER5ENDMARKER".toList
    let tokens := [.text ['é'], .text "éHLSTART\u0663ENDHL".toList, .mark .start 0, .text [],
      .mark .stop 0, .text [], .mark .anchor 5]
    ofText text = .ok tokens ∧ checkRoundTrip tokens 1 = .error (.unknownIndex 5 42) ∧
      ∃ front sentinel rest, FirstUnknown text 1 front sentinel 5 ∧
        text = front.toText ++ (sentinel.toText ++ rest) ∧
        42 + front.padding = front.toText.byteLength + front.repeated ∧
        ((∀ s ∈ front.sentinels, ∃ i, s = ofIndex s.kind i) → 42 = front.toText.byteLength) := by
  intro text tokens
  have hread : ofText text = .ok tokens := by decide +kernel
  have hcheck : checkRoundTrip tokens 1 = .error (.unknownIndex 5 42) := by decide +kernel
  exact ⟨hread, hcheck, unknownIndex_located hread hcheck⟩

/-- Behind a zero in front of an index the reported byte is too low. -/
theorem not_unknownIndex_located : ¬ ∀ text tokens expected index offset, ofText text = .ok tokens →
    checkRoundTrip tokens expected = .error (.unknownIndex index offset) →
    ∃ front sentinel, FirstUnknown text expected front sentinel index ∧
      offset = front.toText.byteLength := by
  intro h
  have hread : ofText "HLSTART00ENDHLHLEND0ENDHLANNMARKER5ENDMARKER".toList =
      .ok [.mark .start 0, .text [], .mark .stop 0, .text [], .mark .anchor 5] := by decide +kernel
  have hcheck : checkRoundTrip [.mark .start 0, .text [], .mark .stop 0, .text [], .mark .anchor 5] 1 =
      .error (.unknownIndex 5 24) := by decide +kernel
  have hparts : (Marked.ofText "HLSTART00ENDHLHLEND0ENDHLANNMARKER5ENDMARKER".toList).parts =
      [([], ⟨.start, ['0', '0']⟩), ([], ⟨.stop, ['0']⟩), ([], ⟨.anchor, ['5']⟩)] := by decide +kernel
  obtain ⟨⟨before, tail⟩, sentinel, hfirst, hbyte⟩ := h _ _ _ _ _ hread hcheck
  obtain ⟨parts, hfound⟩ := hfirst.found
  rw [hparts] at hfound
  -- The first two sentinels have the index zero, and the third begins at byte 25.
  have hunknown := hfirst.index
  rcases before with _ | ⟨first, _ | ⟨second, _ | ⟨third, before⟩⟩⟩
  · obtain ⟨heq, -⟩ := List.cons.inj hfound
    rw [← (Prod.mk.inj heq).2] at hunknown
    revert hunknown
    decide
  · obtain ⟨-, hrest⟩ := List.cons.inj hfound
    obtain ⟨heq, -⟩ := List.cons.inj hrest
    rw [← (Prod.mk.inj heq).2] at hunknown
    revert hunknown
    decide
  · obtain ⟨rfl, hrest⟩ := List.cons.inj hfound
    obtain ⟨rfl, hrest⟩ := List.cons.inj hrest
    obtain ⟨heq, -⟩ := List.cons.inj hrest
    dsimp only at heq hbyte
    rw [← (Prod.mk.inj heq).1] at hbyte
    revert hbyte
    decide
  · have hlength := congrArg List.length hfound
    simp at hlength

end Token

end Marginalia
