import Marginalia.Latex.Scan
import Marginalia.Proofs.Text
import Marginalia.Text.Utf8

/-! # Positions in the bytes of a text

A scanner that holds a text as bytes knows where it stands by a position, and where the other
scanners leave the rest of a text it leaves the position of the rest (`position`).  What it may do
with a position is less than what it may do with a rest: it can take a part of the text only between
positions where a character begins or the text ends, it can go below zero, and it can stay where it
is.  All these are faults here, so a scan by positions is `Checked`: `sliceFrom` and `slice` take
parts, `sub` takes a number from another, and `loop` goes through rounds which must come closer to
the end of the text.

At the position of a rest nothing is out of place (`sliceFrom_position`, `slice_position`), and a
loop that goes on by one on every byte it does not know passes over a character of several bytes,
although it stands inside of it on the way (`loop_skip`).
-/
namespace Marginalia

namespace Text

/-- The bytes in front of what is left of a text. -/
def position (text rest : Text) : Nat :=
  (text.upTo rest).byteLength

variable {text rest : Text} {c : Char}

@[simp] theorem position_append (front rest : Text) :
    position (front ++ rest) rest = front.byteLength := by
  rw [position, upTo_append_right]

@[simp] theorem position_self (text : Text) : position text text = 0 :=
  position_append [] text

@[simp] theorem position_nil (text : Text) : position text [] = text.byteLength := by
  conv => lhs; rw [← List.append_nil text]
  exact position_append text []

/-- What a scanner reads stands between its position and the position of the rest. -/
theorem position_of_append {part : Text} (h : part ++ rest <:+ text) :
    position text rest = position text (part ++ rest) + part.byteLength := by
  obtain ⟨front, rfl⟩ := h
  rw [position_append, ← List.append_assoc, position_append, byteLength_append]

theorem position_cons (h : c :: rest <:+ text) :
    position text rest = position text (c :: rest) + c.utf8Size := by
  have hpart : [c] ++ rest <:+ text := h
  rw [position_of_append hpart, List.singleton_append, byteLength_cons, byteLength_nil,
    Nat.add_zero]

theorem position_succ (h : c :: rest <:+ text) (hc : c.utf8Size = 1) :
    position text (c :: rest) + 1 = position text rest := by
  rw [position_cons h, hc]

theorem position_le (h : rest <:+ text) : position text rest ≤ text.byteLength := by
  obtain ⟨front, rfl⟩ := h
  rw [position_append, byteLength_append]
  exact Nat.le_add_right _ _

theorem position_le_position {back : Text} (hback : back <:+ rest) (h : rest <:+ text) :
    position text rest ≤ position text back := by
  obtain ⟨part, rfl⟩ := hback
  rw [position_of_append h]
  exact Nat.le_add_right _ _

theorem position_lt_position {back : Text} (hback : back <:+ rest) (h : rest <:+ text)
    (hlength : back.length < rest.length) : position text rest < position text back := by
  obtain ⟨part, rfl⟩ := hback
  have hpart : part ≠ [] := by
    rintro rfl
    exact Nat.lt_irrefl _ hlength
  rw [position_of_append h]
  exact Nat.lt_add_of_pos_right (byteLength_pos hpart)

/-- A position in a part behind the front of a text. -/
theorem position_append_append {front : Text} (h : rest <:+ text) :
    position (front ++ text) rest = front.byteLength + position text rest := by
  obtain ⟨part, rfl⟩ := h
  rw [← List.append_assoc, position_append, position_append, byteLength_append]

/-- What is left of a text behind a number of bytes, unless they end inside a character or behind
the text. -/
def dropBytes? : Text → Nat → Option Text
  | text, 0 => some text
  | [], _ + 1 => none
  | c :: text, n + 1 => if c.utf8Size ≤ n + 1 then dropBytes? text (n + 1 - c.utf8Size) else none

theorem dropBytes?_append (front rest : Text) :
    dropBytes? (front ++ rest) (byteLength front) = some rest := by
  induction front with
  | nil =>
    rw [List.nil_append, byteLength_nil]
    cases rest <;> rfl
  | cons c front ih =>
    obtain ⟨n, hn⟩ : ∃ n, c.utf8Size + byteLength front = n + 1 :=
      Nat.exists_eq_add_one.mpr (Nat.add_pos_left c.utf8Size_pos _)
    rw [List.cons_append, byteLength_cons, hn, dropBytes?, if_pos (by omega), ← hn,
      Nat.add_sub_cancel_left]
    exact ih

/-- Behind a number of bytes stands a rest of the text just if that is its position. -/
theorem dropBytes?_eq_some_iff {n : Nat} :
    dropBytes? text n = some rest ↔ rest <:+ text ∧ position text rest = n := by
  constructor
  · intro h
    fun_induction dropBytes? text n with
    | case1 text => exact Option.some.inj h ▸ ⟨List.suffix_refl _, position_self _⟩
    | case2 => cases h
    | case3 c text n hsize ih =>
      obtain ⟨hsuffix, hposition⟩ := ih h
      refine ⟨hsuffix.trans (List.suffix_cons _ _), ?_⟩
      have hcons : position ([c] ++ text) rest = byteLength [c] + position text rest :=
        position_append_append hsuffix
      rw [List.singleton_append, byteLength_cons, byteLength_nil, hposition] at hcons
      omega
    | case4 => cases h
  · rintro ⟨⟨front, rfl⟩, rfl⟩
    rw [position_append]
    exact dropBytes?_append front rest

end Text

namespace Latex

open Text

/-- How a scan of a group ends, with the position of what follows the group. -/
def Closing.inBytes (text : Text) : Closing → Except Nat Nat
  | .closed rest => .ok (position text rest)
  | .unclosed depth => .error depth

end Latex

namespace Offset

open Text

/-- What may go wrong in a scan by positions. -/
inductive Fault where
  /-- A text is cut behind its end or where no character begins. -/
  | slice
  /-- A number is taken from a smaller one. -/
  | underflow
  /-- A loop stays where it is, or goes behind the end of the text. -/
  | stalled
  /-- Something is put before the end of what has been copied. -/
  | backward
  deriving DecidableEq, Repr

/-- The outcome of a scan by positions. -/
abbrev Checked (α : Type) : Type :=
  Except Fault α

@[simp] theorem ok_bind {α β : Type} (a : α) (f : α → Checked β) : (Except.ok a >>= f) = f a := rfl

@[simp] theorem pure_eq_ok {α : Type} (a : α) : (pure a : Checked α) = .ok a := rfl

/-- The text from a position on. -/
def sliceFrom (text : Text) (start : Nat) : Checked Text :=
  match dropBytes? text start with
  | some rest => .ok rest
  | none => .error .slice

/-- The text between two positions. -/
def slice (text : Text) (start stop : Nat) : Checked Text :=
  if start ≤ stop then do
    let rest ← sliceFrom text start
    let after ← sliceFrom text stop
    return rest.upTo after
  else .error .slice

/-- The difference of two numbers that are not negative. -/
def sub (a b : Nat) : Checked Nat :=
  if b ≤ a then .ok (a - b) else .error .underflow

/-- The bytes of a text, each as the character of its value. -/
def bytes (text : Text) : Text :=
  (Utf8.encode text).map fun b => Char.ofNat b.toNat

/-- The byte at a position. -/
def byteAt? (text : Text) (i : Nat) : Option Char :=
  (bytes text)[i]?

/-- The number of bytes at the front of a text that pass the test. -/
def countWhile (p : Char → Bool) (text : Text) : Nat :=
  ((bytes text).takeWhile p).length

/-- How a round of a loop ends: with the result of the loop, or with the position to go on from. -/
inductive Round (σ α : Type) where
  | done (result : α)
  | next (state : σ) (i : Nat)

/-- Goes through rounds, each of which must come closer to the end of a text of this many bytes. -/
def loop {σ α : Type} (size : Nat) (round : σ → Nat → Checked (Round σ α)) (state : σ) (i : Nat) :
    Checked α :=
  match round state i with
  | .error fault => .error fault
  | .ok (.done result) => .ok result
  | .ok (.next state j) =>
    if i < j ∧ j ≤ size then loop size round state j else .error .stalled
termination_by size - i

variable {text rest : Text} {c : Char}

/-! ### Parts of a text -/

theorem sliceFrom_position (h : rest <:+ text) :
    sliceFrom text (position text rest) = .ok rest := by
  rw [sliceFrom, dropBytes?_eq_some_iff.mpr ⟨h, rfl⟩]

theorem slice_position {part : Text} (h : part ++ rest <:+ text) :
    slice text (position text (part ++ rest)) (position text rest) = .ok part := by
  have hrest : rest <:+ text := (List.suffix_append _ _).trans h
  rw [slice, if_pos (position_le_position (List.suffix_append _ _) h), sliceFrom_position h, ok_bind,
    sliceFrom_position hrest, ok_bind, upTo_append_right, pure_eq_ok]

theorem sub_add_right (a b : Nat) : sub (a + b) b = .ok a := by
  rw [sub, if_pos (Nat.le_add_left b a), Nat.add_sub_cancel]

theorem sub_add_left (a b : Nat) : sub (a + b) a = .ok b := by
  rw [sub, if_pos (Nat.le_add_right a b), Nat.add_sub_cancel_left]

/-! ### Bytes -/

theorem bytes_append (front text : Text) : bytes (front ++ text) = bytes front ++ bytes text := by
  rw [bytes, Utf8.encode, List.flatMap_append, List.map_append]
  rfl

theorem bytes_cons (c : Char) (text : Text) : bytes (c :: text) = bytes [c] ++ bytes text :=
  bytes_append [c] text

theorem length_bytes (text : Text) : (bytes text).length = text.byteLength := by
  induction text with
  | nil => rfl
  | cons c text ih =>
    have hchar : (bytes [c]).length = c.utf8Size := by
      rw [bytes, Utf8.encode, List.flatMap_singleton, List.length_map, String.length_utf8EncodeChar]
    rw [bytes_cons, List.length_append, hchar, ih, byteLength_cons]

theorem toNat_ofNat_byte (b : UInt8) : (Char.ofNat b.toNat).toNat = b.toNat := by
  have hvalid : b.toNat.isValidChar := .inl (Nat.lt_trans b.toNat_lt (by decide))
  rw [Char.ofNat, dif_pos hvalid]
  rfl

/-- A character of the first hundred and twenty-eight is its own byte. -/
theorem bytes_ascii (hc : c.toNat < 128) : bytes [c] = [c] := by
  have hbyte : (UInt8.ofNat c.toNat).toNat = c.toNat :=
    UInt8.toNat_ofNat_of_lt (Nat.lt_trans hc (by decide))
  have hencode : String.utf8EncodeChar c = [UInt8.ofNat c.toNat] := if_pos (Nat.le_of_lt_succ hc)
  rw [bytes, Utf8.encode, List.flatMap_singleton, hencode, List.map_singleton, hbyte,
    Char.ofNat_toNat]

theorem utf8Size_ascii (hc : c.toNat < 128) : c.utf8Size = 1 := by
  have hlength := length_bytes [c]
  rw [bytes_ascii hc, byteLength_cons, byteLength_nil] at hlength
  exact hlength.symm

/-- The bytes of any other character are none of these characters. -/
theorem le_of_mem_bytes (hc : 128 ≤ c.toNat) {b : Char} (h : b ∈ bytes [c]) : 128 ≤ b.toNat := by
  rw [bytes, Utf8.encode, List.flatMap_singleton] at h
  obtain ⟨byte, hbyte, rfl⟩ := List.mem_map.mp h
  rw [toNat_ofNat_byte]
  have hlarge : ¬ c.val.toNat ≤ 127 := Nat.not_le.mpr hc
  simp only [String.utf8EncodeChar, if_neg hlarge] at hbyte
  split at hbyte
  · simp only [List.mem_cons, List.not_mem_nil, or_false] at hbyte
    rcases hbyte with rfl | rfl <;> simp <;> omega
  · split at hbyte <;> simp only [List.mem_cons, List.not_mem_nil, or_false] at hbyte
    · rcases hbyte with rfl | rfl | rfl <;> simp <;> omega
    · rcases hbyte with rfl | rfl | rfl | rfl <;> simp <;> omega

theorem eq_or_le_of_mem_bytes {b : Char} (h : b ∈ bytes [c]) : b = c ∨ 128 ≤ b.toNat := by
  by_cases hc : c.toNat < 128
  · rw [bytes_ascii hc, List.mem_singleton] at h
    exact .inl h
  · exact .inr (le_of_mem_bytes (Nat.le_of_not_lt hc) h)

theorem exists_bytes_cons (c : Char) :
    ∃ b more, bytes [c] = b :: more ∧ (b = c ∨ 128 ≤ b.toNat) := by
  obtain ⟨b, more, hmore⟩ : ∃ b more, bytes [c] = b :: more := by
    refine List.exists_cons_of_length_pos ?_
    rw [length_bytes, byteLength_cons]
    exact Nat.add_pos_left c.utf8Size_pos _
  exact ⟨b, more, hmore, eq_or_le_of_mem_bytes (hmore ▸ List.mem_cons_self)⟩

theorem byteAt?_position_add (h : rest <:+ text) (k : Nat) :
    byteAt? text (position text rest + k) = (bytes rest)[k]? := by
  obtain ⟨front, rfl⟩ := h
  have hle : (bytes front).length ≤ byteLength front + k := by
    rw [length_bytes]
    exact Nat.le_add_right _ k
  rw [byteAt?, position_append, bytes_append, List.getElem?_append_right hle, length_bytes,
    Nat.add_sub_cancel_left]

/-- From the position of a character up to that of what follows it stand its bytes. -/
theorem exists_byteAt? (h : c :: rest <:+ text) {i : Nat} (hstart : position text (c :: rest) ≤ i)
    (hstop : i < position text rest) :
    ∃ b, byteAt? text i = some b ∧ (b = c ∨ 128 ≤ b.toNat) := by
  obtain ⟨k, rfl⟩ := Nat.exists_eq_add_of_le hstart
  have hlt : k < (bytes [c]).length := by
    rw [position_cons h] at hstop
    rw [length_bytes, byteLength_cons]
    exact Nat.lt_add_right _ (Nat.lt_of_add_lt_add_left hstop)
  refine ⟨(bytes [c])[k], ?_, eq_or_le_of_mem_bytes (List.getElem_mem hlt)⟩
  rw [byteAt?_position_add h, bytes_cons, List.getElem?_append_left hlt,
    List.getElem?_eq_getElem hlt]

/-- At the position of a character stands its first byte. -/
theorem exists_byteAt?_position (h : c :: rest <:+ text) :
    ∃ b, byteAt? text (position text (c :: rest)) = some b ∧ (b = c ∨ 128 ≤ b.toNat) := by
  refine exists_byteAt? h (Nat.le_refl _) ?_
  rw [position_cons h]
  exact Nat.lt_add_of_pos_right c.utf8Size_pos

theorem byteAt?_position_nil (text : Text) : byteAt? text (position text []) = none := by
  have hend := byteAt?_position_add (List.nil_suffix (l := text)) 0
  exact hend

theorem byteAt?_position (h : c :: rest <:+ text) (hc : c.toNat < 128) :
    byteAt? text (position text (c :: rest)) = some c := by
  have hbyte := byteAt?_position_add h 0
  rw [bytes_cons, bytes_ascii hc] at hbyte
  exact hbyte

/-- Only the character itself has its byte at its position. -/
theorem byteAt?_position_iff (h : rest <:+ text) (hc : c.toNat < 128) :
    byteAt? text (position text rest) = some c ↔ rest.head? = some c := by
  constructor
  · intro hbyte
    cases rest with
    | nil =>
      rw [byteAt?_position_nil] at hbyte
      cases hbyte
    | cons d rest =>
      obtain ⟨b, hb, rfl | hlarge⟩ := exists_byteAt?_position h <;>
        obtain rfl := Option.some.inj (hb.symm.trans hbyte)
      · rfl
      · exact absurd hc (Nat.not_lt.mpr hlarge)
  · intro hhead
    obtain ⟨rest, rfl⟩ := List.head?_eq_some_iff.mp hhead
    exact byteAt?_position h hc

theorem countWhile_eq {p : Char → Bool} (hp : ∀ c, p c = true → c.toNat < 128) (text : Text) :
    countWhile p text = byteLength (text.takeWhile p) := by
  induction text with
  | nil => rfl
  | cons c text ih =>
    rw [countWhile, bytes_cons]
    by_cases hc : p c = true
    · have hlength : ((bytes text).takeWhile p).length = byteLength (text.takeWhile p) := ih
      rw [bytes_ascii (hp c hc), List.singleton_append, List.takeWhile_cons_of_pos hc,
        List.takeWhile_cons_of_pos hc, List.length_cons, hlength, byteLength_cons,
        utf8Size_ascii (hp c hc), Nat.add_comm]
    · obtain ⟨b, more, hmore, hfirst⟩ := exists_bytes_cons c
      have hb : ¬ p b = true := by
        rcases hfirst with rfl | hlarge
        · exact hc
        · exact fun hpass => absurd (hp b hpass) (Nat.not_lt.mpr hlarge)
      rw [hmore, List.cons_append, List.takeWhile_cons_of_neg hb, List.takeWhile_cons_of_neg hc]
      rfl

/-! ### Loops -/

section Loops

variable {σ α : Type} {round : σ → Nat → Checked (Round σ α)} {state state' : σ} {result : α}
  {i j : Nat}

theorem loop_done {size : Nat} (h : round state i = .ok (.done result)) :
    loop size round state i = .ok result := by
  rw [loop, h]

theorem loop_next {size : Nat} (h : round state i = .ok (.next state' j)) (hlt : i < j)
    (hle : j ≤ size) : loop size round state i = loop size round state' j := by
  rw [loop, h]
  exact if_pos ⟨hlt, hle⟩

/-- A round that reads the front of what is left. -/
theorem loop_next_position {back : Text} (hrest : rest <:+ text) (hback : back <:+ rest)
    (hlength : back.length < rest.length)
    (h : round state (position text rest) = .ok (.next state' (position text back))) :
    loop text.byteLength round state (position text rest) =
      loop text.byteLength round state' (position text back) :=
  loop_next h (position_lt_position hback hrest hlength) (position_le (hback.trans hrest))

/-- **Byte by byte over a character.**  A loop which goes on by one on the bytes of a character comes
to the character behind it. -/
theorem loop_skip (h : c :: rest <:+ text)
    (hround : ∀ i b, byteAt? text i = some b → (b = c ∨ 128 ≤ b.toNat) →
      round state i = .ok (.next state (i + 1))) :
    loop text.byteLength round state (position text (c :: rest)) =
      loop text.byteLength round state (position text rest) := by
  have hinside (k : Nat) (hk : k ≤ c.utf8Size) :
      loop text.byteLength round state (position text (c :: rest)) =
        loop text.byteLength round state (position text (c :: rest) + k) := by
    induction k with
    | zero => rfl
    | succ k ih =>
      have hstop : position text (c :: rest) + k < position text rest := by
        rw [position_cons h]
        exact Nat.add_lt_add_left hk _
      obtain ⟨b, hb, hbyte⟩ := exists_byteAt? h (Nat.le_add_right _ k) hstop
      rw [ih (Nat.le_of_succ_le hk)]
      exact loop_next (hround _ _ hb hbyte) (Nat.lt_succ_self _)
        (Nat.le_trans hstop (position_le ((List.suffix_cons c rest).trans h)))
  rw [hinside c.utf8Size (Nat.le_refl _), ← position_cons h]

end Loops

end Offset

end Marginalia
