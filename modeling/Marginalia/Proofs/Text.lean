import Marginalia.Text.Basic

/-! # Words at the front of a text

What a scanner reads from a text that was put together from known parts: a run of characters of
one class ends where the class does (`takeWhile_append_stop`), a word that is not at the front is
not found there (`isPrefixOf?_eq_none`), and a search does not look past the word that it finds
(`split?_append_rest`).
-/
namespace Marginalia.Text

theorem byteLength_pos {text : Text} (h : text ≠ []) : 0 < text.byteLength := by
  cases text with
  | nil => exact absurd rfl h
  | cons c text =>
    rw [byteLength_cons]
    exact Nat.add_pos_left c.utf8Size_pos _

theorem isPrefixOf?_eq_none {word text : Text} (h : ¬ word <+: text) :
    word.isPrefixOf? text = none := by
  cases hr : word.isPrefixOf? text with
  | none => rfl
  | some rest => exact absurd ⟨rest, (eq_append_of_isPrefixOf? hr).symm⟩ h

/-- A search that found a word finds it again whatever the rest is. -/
theorem split?_append_rest {word text front rest : Text} (h : split? word text = some (front, rest))
    (rest' : Text) : split? word (front ++ word ++ rest') = some (front, rest') := by
  have hfound : split? word (word ++ rest') = some ([], rest') := by
    cases htext : word ++ rest' with
    | nil =>
      obtain ⟨rfl, rfl⟩ := List.append_eq_nil_iff.mp htext
      rfl
    | cons c text =>
      rw [split?, ← htext, isPrefixOf?_append]
  induction text generalizing front with
  | nil =>
    unfold split? at h
    split at h
    · obtain ⟨rfl, rfl⟩ : [] = front ∧ [] = rest := by simpa using h
      exact hfound
    · cases h
  | cons c text ih =>
    unfold split? at h
    split at h
    · obtain ⟨rfl, rfl⟩ : [] = front ∧ _ = rest := by simpa using h
      exact hfound
    · next hnone =>
      obtain ⟨⟨front', rest''⟩, hs, heq⟩ := Option.map_eq_some_iff.mp h
      obtain ⟨rfl, rfl⟩ : c :: front' = front ∧ rest'' = rest := by simpa using heq
      have hprefix : ¬ word <+: c :: front' ++ word ++ rest' := by
        intro hword
        -- The word would end before its first occurrence does.
        have hshort : word <+: c :: front' ++ word :=
          List.prefix_of_prefix_length_le hword (List.prefix_append _ _) (by simp; omega)
        obtain ⟨tail, htail⟩ := hshort.trans (List.prefix_append _ rest'')
        rw [split?_eq_some hs, ← List.cons_append, ← List.cons_append, ← htail,
          isPrefixOf?_append] at hnone
        cases hnone
      rw [List.cons_append, List.cons_append, split?, ← List.cons_append, ← List.cons_append,
        isPrefixOf?_eq_none hprefix]
      simp only [ih hs, Option.map_some]

/-- A search that finds nothing: the word is not in the text. -/
theorem not_infix_of_split? {word text : Text} (h : split? word text = none) : ¬ word <:+: text := by
  induction text with
  | nil =>
    unfold split? at h
    split at h
    · cases h
    · next hword => exact fun hinfix => hword (List.infix_nil.mp hinfix)
  | cons c text ih =>
    unfold split? at h
    split at h
    · cases h
    · next hnone =>
      intro hinfix
      rcases List.infix_cons_iff.mp hinfix with ⟨rest, hrest⟩ | hinfix
      · rw [← hrest, isPrefixOf?_append] at hnone
        cases hnone
      · exact ih (Option.map_eq_none_iff.mp h) hinfix

/-- A search finds the first occurrence of the word. -/
theorem length_le_of_split? {word text front rest front' rest' : Text}
    (h : split? word text = some (front, rest)) (heq : text = front' ++ (word ++ rest')) :
    front.length ≤ front'.length := by
  induction text generalizing front front' with
  | nil =>
    have hfront := congrArg List.length (split?_eq_some h)
    simp only [List.length_nil, List.length_append] at hfront
    omega
  | cons c text ih =>
    unfold split? at h
    split at h
    · obtain ⟨rfl, -⟩ := Prod.mk.inj (Option.some.inj h)
      exact Nat.zero_le _
    · next hnone =>
      obtain ⟨⟨front, rest⟩, hs, hfound⟩ := Option.map_eq_some_iff.mp h
      obtain ⟨rfl, rfl⟩ := Prod.mk.inj hfound
      cases front' with
      | nil =>
        rw [heq, List.nil_append, isPrefixOf?_append] at hnone
        cases hnone
      | cons d front' =>
        exact Nat.succ_le_succ (ih hs (List.cons.inj heq).2)

/-- No character of the class stands at the front of the text. -/
def Stops (p : Char → Bool) (text : Text) : Prop :=
  ∀ c ∈ text.head?, p c = false

@[simp] theorem stops_nil (p : Char → Bool) : Stops p [] := by
  simp [Stops]

@[simp] theorem stops_cons {p : Char → Bool} {c : Char} {text : Text} :
    Stops p (c :: text) ↔ p c = false := by
  simp [Stops]

theorem stops_dropWhile (p : Char → Bool) (text : Text) : Stops p (text.dropWhile p) := by
  intro c hc
  cases hdrop : text.dropWhile p with
  | nil =>
    rw [hdrop] at hc
    cases hc
  | cons d rest =>
    have hd := List.head?_dropWhile_not p text
    rw [hdrop] at hc hd
    obtain rfl : d = c := by simpa using hc
    simpa using hd

/-- A run of one class at the front of a text is not shorter in a longer text. -/
theorem takeWhile_prefix_append (p : Char → Bool) (text rest : Text) :
    text.takeWhile p <+: (text ++ rest).takeWhile p := by
  induction text with
  | nil => exact List.nil_prefix
  | cons c text ih =>
    by_cases hc : p c = true
    · rw [List.cons_append, List.takeWhile_cons_of_pos hc, List.takeWhile_cons_of_pos hc]
      exact List.cons_prefix_cons.mpr ⟨rfl, ih⟩
    · rw [List.takeWhile_cons_of_neg hc]
      exact List.nil_prefix

/-- A run of one class is read up to where it stops. -/
theorem takeWhile_append_stop {p : Char → Bool} {word rest : Text} (hword : ∀ c ∈ word, p c = true)
    (hrest : Stops p rest) :
    (word ++ rest).takeWhile p = word ∧ (word ++ rest).dropWhile p = rest := by
  have hstop : rest.takeWhile p = [] ∧ rest.dropWhile p = rest := by
    cases rest with
    | nil => exact ⟨rfl, rfl⟩
    | cons c rest =>
      rw [stops_cons] at hrest
      simp [hrest]
  rw [List.takeWhile_append_of_pos hword, List.dropWhile_append_of_pos hword, hstop.1, hstop.2,
    List.append_nil]
  exact ⟨rfl, rfl⟩

/-- Two words of one class that stop are the same if the texts that they begin are. -/
theorem append_stop_inj {p : Char → Bool} {word word' rest rest' : Text}
    (hword : ∀ c ∈ word, p c = true) (hword' : ∀ c ∈ word', p c = true)
    (hrest : Stops p rest) (hrest' : Stops p rest') (h : word ++ rest = word' ++ rest') :
    word = word' ∧ rest = rest' := by
  obtain ⟨htake, hdrop⟩ := takeWhile_append_stop hword hrest
  obtain ⟨htake', hdrop'⟩ := takeWhile_append_stop hword' hrest'
  rw [h] at htake hdrop
  exact ⟨htake.symm.trans htake', hdrop.symm.trans hdrop'⟩

theorem eq_or_mem_of_mem_intersperse {separator piece : Text} {pieces : List Text}
    (h : piece ∈ pieces.intersperse separator) : piece = separator ∨ piece ∈ pieces := by
  fun_induction List.intersperse separator pieces with
  | case1 => exact .inr h
  | case2 first => exact .inr h
  | case3 first rest _ ih =>
    rcases List.mem_cons.mp h with rfl | h
    · exact .inr List.mem_cons_self
    rcases List.mem_cons.mp h with rfl | h
    · exact .inl rfl
    · exact (ih h).imp_right (List.mem_cons_of_mem first)

end Marginalia.Text
