/-! # Texts

A text is a list of characters.  Scanners read a text from the front and hand back what is left
of it, so every scanner's answer is a suffix of its input; `upTo` recovers the part that was read.
Positions that leave the library count the bytes of the UTF-8 form, which `byteLength` measures.

`upTo_append` says that nothing is lost between the part read and the rest, `split?_eq_some`
says the same of a search for a word, and `byteLength_append` that lengths add up.
-/
namespace Marginalia

/-- A text: its characters in order. -/
abbrev Text := List Char

namespace Text

/-- What holds of each character of a text is decided by looking at these, not at all characters. -/
instance (p : Char → Prop) [DecidablePred p] (text : Text) : Decidable (∀ c ∈ text, p c) :=
  List.decidableBAll p text

/-- The length of the UTF-8 form in bytes. -/
def byteLength (text : Text) : Nat :=
  text.foldl (fun total c => total + c.utf8Size) 0

theorem foldl_utf8Size (text : Text) (total : Nat) :
    text.foldl (fun total c => total + c.utf8Size) total = total + text.byteLength := by
  unfold byteLength
  induction text generalizing total with
  | nil => simp
  | cons c text ih => rw [List.foldl_cons, List.foldl_cons, ih, ih (0 + c.utf8Size)]; omega

@[simp] theorem byteLength_nil : byteLength [] = 0 := rfl

@[simp] theorem byteLength_cons (c : Char) (text : Text) :
    byteLength (c :: text) = c.utf8Size + byteLength text := by
  conv => lhs; unfold byteLength
  rw [List.foldl_cons, foldl_utf8Size]
  omega

@[simp] theorem byteLength_append (s t : Text) :
    byteLength (s ++ t) = byteLength s + byteLength t := by
  induction s with
  | nil => simp
  | cons c s ih => simp [ih]; omega

/-- The part of `text` that was read when `rest` is what is left of it. -/
def upTo (text rest : Text) : Text :=
  text.take (text.length - rest.length)

theorem upTo_append {text rest : Text} (h : rest <:+ text) : text.upTo rest ++ rest = text := by
  obtain ⟨front, rfl⟩ := h
  simp [upTo]

@[simp] theorem upTo_append_right (front rest : Text) : upTo (front ++ rest) rest = front := by
  simp [upTo]

/-- The text before the first occurrence of `word` and the text after it. -/
def split? (word : Text) : Text → Option (Text × Text)
  | [] => if word = [] then some ([], []) else none
  | c :: text =>
    match word.isPrefixOf? (c :: text) with
    | some rest => some ([], rest)
    | none => (split? word text).map fun (front, rest) => (c :: front, rest)

theorem isPrefixOf?_nil (text : Text) : [].isPrefixOf? text = some text := by
  cases text <;> rfl

theorem isPrefixOf?_cons (c d : Char) (word text : Text) :
    (c :: word).isPrefixOf? (d :: text) = if c == d then word.isPrefixOf? text else none :=
  rfl

theorem eq_append_of_isPrefixOf? {word text rest : Text} (h : word.isPrefixOf? text = some rest) :
    text = word ++ rest := by
  induction word generalizing text with
  | nil =>
    rw [isPrefixOf?_nil] at h
    exact Option.some.inj h
  | cons c word ih =>
    cases text with
    | nil => cases h
    | cons d text =>
      rw [isPrefixOf?_cons] at h
      split at h
      · next hcd => rw [ih h, beq_iff_eq.mp hcd]; rfl
      · simp at h

@[simp] theorem isPrefixOf?_append (word rest : Text) :
    word.isPrefixOf? (word ++ rest) = some rest := by
  induction word with
  | nil => exact isPrefixOf?_nil rest
  | cons c word ih => rw [List.cons_append, isPrefixOf?_cons, ih]; simp

/-- A search loses nothing: the front, the word and the rest make up the text. -/
theorem split?_eq_some {word text front rest : Text} (h : split? word text = some (front, rest)) :
    text = front ++ word ++ rest := by
  induction text generalizing front with
  | nil =>
    unfold split? at h
    split at h <;> simp_all
  | cons c text ih =>
    unfold split? at h
    split at h
    · next r hr =>
      obtain ⟨rfl, rfl⟩ : [] = front ∧ r = rest := by simpa using h
      simpa using eq_append_of_isPrefixOf? hr
    · obtain ⟨⟨f, r⟩, hs, heq⟩ := Option.map_eq_some_iff.mp h
      obtain ⟨rfl, rfl⟩ : c :: f = front ∧ r = rest := by simpa using heq
      simp [ih hs]

/-- Every occurrence of `word` replaced by `new`, from left to right.  `fuel` bounds the number
of steps; the length of the text is enough. -/
def replaceFrom (word new : Text) : Nat → Text → Text
  | 0, text => text
  | fuel + 1, text =>
    match split? word text with
    | none => text
    | some (front, rest) => front ++ new ++ replaceFrom word new fuel rest

/-- An empty word occurs before every character and at the end. -/
def interleave (new : Text) : Text → Text
  | [] => new
  | c :: text => new ++ c :: interleave new text

/-- All non-overlapping occurrences of `word` replaced by `new`. -/
def replace (word new text : Text) : Text :=
  if word.isEmpty then interleave new text else replaceFrom word new (text.length + 1) text

/-- The pieces of a text between the occurrences of `separator`. -/
def splitOn (separator : Char) : Text → List Text
  | [] => [[]]
  | c :: text =>
    if c = separator then [] :: splitOn separator text
    else match splitOn separator text with
      | [] => [[c]]
      | piece :: pieces => (c :: piece) :: pieces

end Text
end Marginalia
