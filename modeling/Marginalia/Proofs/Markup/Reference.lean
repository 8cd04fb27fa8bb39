import Marginalia.Markup.Reference
import Marginalia.Proofs.Text
import Mathlib.Data.List.Infix

/-! # Character references in front of sentinels

Where a reference ends is decided by what follows it, so a word that is put behind an ampersand may
become part of a name.  With the words of sentinels this hardly happens: no name of a character has two
of their first letters in a row, and only `ETH` ends with one of them (`NamedCharacters.Apart`).  So a
reference is read the same with such a word put in behind it, or behind text that is none, unless `ET`
stands in front of the word (`Reference.read?_append_word`).
-/
namespace Marginalia.Markup

open Text

/-! ### The names of characters -/

namespace NamedCharacters

/-- The bytes of a name. -/
def codes (name : String) : List UInt8 :=
  name.toByteArray.data.toList

theorem codes_append (s t : Text) :
    codes (.ofList (s ++ t)) = codes (.ofList s) ++ codes (.ofList t) := by
  simp only [codes, String.toByteArray_ofList, List.utf8Encode_append, ByteArray.data_append,
    Array.toList_append]

theorem isInfix_codes {s t : Text} (h : s <:+: t) : codes (.ofList s) <:+: codes (.ofList t) := by
  obtain ⟨front, back, rfl⟩ := h
  rw [codes_append, codes_append]
  exact List.infix_append _ _ _

theorem isSuffix_codes {s t : Text} (h : s <:+ t) : codes (.ofList s) <:+ codes (.ofList t) := by
  obtain ⟨front, rfl⟩ := h
  rw [codes_append]
  exact List.suffix_append _ _

/-- The name does not go over into a word that begins as sentinels do.  Its bytes say so. -/
structure Apart (name : String) : Prop where
  highlight : ¬ codes "HL" <:+: codes name
  note : ¬ codes "AN" <:+: codes name
  lastHighlight : codes "H" <:+ codes name → name = "ETH"
  lastNote : ¬ codes "A" <:+ codes name

instance (name : String) : Decidable (Apart name) :=
  decidable_of_iff (¬ codes "HL" <:+: codes name ∧ ¬ codes "AN" <:+: codes name ∧
      (codes "H" <:+ codes name → name = "ETH") ∧ ¬ codes "A" <:+ codes name)
    ⟨fun ⟨h₁, h₂, h₃, h₄⟩ => ⟨h₁, h₂, h₃, h₄⟩, fun ⟨h₁, h₂, h₃, h₄⟩ => ⟨h₁, h₂, h₃, h₄⟩⟩

/-- Every name is apart from the words of sentinels. -/
theorem apart_startingWith (c : Char) :
    (startingWith c).all (fun entry => decide (Apart entry.1)) = true := by
  unfold startingWith
  split <;> decide +kernel

/-- A known name is an entry of its first letter. -/
theorem exists_mem_of_find? {name shown : Text} (h : find? name = some shown) :
    ∃ c text, (String.ofList name, text) ∈ startingWith c ∧ text.toList = shown := by
  unfold find? at h
  split at h
  · cases h
  · next c tail =>
    obtain ⟨text, hlookup, hshown⟩ := Option.map_eq_some_iff.mp h
    obtain ⟨front, back, hentries, -⟩ := List.lookup_eq_some_iff.mp hlookup
    refine ⟨c, text, ?_, hshown⟩
    rw [hentries]
    exact List.mem_append_right front List.mem_cons_self

theorem apart_of_find? {name shown : Text} (h : find? name = some shown) :
    Apart (.ofList name) := by
  obtain ⟨c, text, hmem, -⟩ := exists_mem_of_find? h
  exact of_decide_eq_true (List.all_eq_true.mp (apart_startingWith c) _ hmem)

end NamedCharacters

/-- A word such as a row of sentinels: letters and digits, too many for a numeric reference, that begin
as a sentinel does. -/
structure SentinelWord (word : Text) : Prop where
  alnum : ∀ c ∈ word, c.isAlphanum = true
  long : Reference.numericReach < word.length
  front : "HL".toList <+: word ∨ "AN".toList <+: word

/-- The first letter of the word makes a name of the text before it. -/
def Completes (front word : Text) : Prop :=
  front = "ET".toList ∧ word.head? = some 'H'

namespace SentinelWord

variable {word front name back : Text}

theorem ne_nil (h : SentinelWord word) : word ≠ [] := by
  rintro rfl
  exact absurd h.long (Nat.not_lt_zero _)

/-- No name goes over into the word. -/
theorem find?_eq_none (h : SentinelWord word) (hfront : ¬ Completes front word) (hne : name ≠ [])
    (hname : name <+: word ++ back) : NamedCharacters.find? (front ++ name) = none := by
  by_contra hsome
  obtain ⟨shown, hshown⟩ := Option.ne_none_iff_exists'.mp hsome
  have hapart := NamedCharacters.apart_of_find? hshown
  have hlast {c : Char} {tail : Text} (hword : word = c :: tail) :
      name = [c] ∨ ∃ d rest, name = c :: d :: rest ∧ (tail ++ back).head? = some d := by
    obtain ⟨left, hleft⟩ := hname
    rw [hword, List.cons_append] at hleft
    cases name with
    | nil => exact absurd rfl hne
    | cons d name =>
      obtain ⟨rfl, htail⟩ := List.cons.inj hleft
      cases name with
      | nil => exact .inl rfl
      | cons d' rest => exact .inr ⟨d', rest, rfl, by rw [← htail]; rfl⟩
  have hsuffix (c : Char) : [c] <:+ front ++ [c] := List.suffix_append front [c]
  have hpair (c d : Char) (rest : Text) : [c, d] <:+: front ++ c :: d :: rest :=
    ⟨front, rest, by simp⟩
  rcases h.front with ⟨tail, hword⟩ | ⟨tail, hword⟩
  · rcases hlast hword.symm with rfl | ⟨d, rest, rfl, hd⟩
    · have heth := hapart.lastHighlight (NamedCharacters.isSuffix_codes (hsuffix 'H'))
      have htext : front ++ ['H'] = "ET".toList ++ ['H'] :=
        String.ofList_injective (heth.trans (by decide))
      refine hfront ⟨List.append_cancel_right htext, ?_⟩
      rw [← hword]
      rfl
    · obtain rfl : 'L' = d := Option.some.inj hd
      exact hapart.highlight (NamedCharacters.isInfix_codes (hpair 'H' 'L' rest))
  · rcases hlast hword.symm with rfl | ⟨d, rest, rfl, hd⟩
    · exact hapart.lastNote (NamedCharacters.isSuffix_codes (hsuffix 'A'))
    · obtain rfl : 'N' = d := Option.some.inj hd
      exact hapart.note (NamedCharacters.isInfix_codes (hpair 'A' 'N' rest))

end SentinelWord

/-! ### Reading references -/

namespace Reference

variable {find? : Text → Option Text} {text text' front word back rest : Text} {n k : Nat}
  {reference : Reference}

theorem longest?_congr (h : text.take n = text'.take n) :
    longest? find? text n = longest? find? text' n := by
  induction n with
  | zero => rfl
  | succ n ih =>
    have hn : text.take n = text'.take n := by
      have hmin : min n (n + 1) = n := Nat.min_eq_left (Nat.le_succ n)
      rw [← hmin, ← List.take_take, h, List.take_take]
    rw [longest?, longest?, h, ih hn]

theorem length_of_longest? (h : longest? find? text n = some reference) :
    0 < reference.length ∧ reference.length ≤ n := by
  induction n with
  | zero => cases h
  | succ n ih =>
    rw [longest?] at h
    split at h
    · obtain rfl := Option.some.inj h
      exact ⟨Nat.succ_pos n, Nat.le_refl _⟩
    · obtain ⟨hpos, hle⟩ := ih h
      exact ⟨hpos, Nat.le_succ_of_le hle⟩

/-- Fronts that are no names may be left out. -/
theorem longest?_eq_of_none (hk : k ≤ n)
    (hnone : ∀ m, k < m → m ≤ n → find? (text.take m) = none) :
    longest? find? text n = longest? find? text k := by
  induction n with
  | zero => rw [Nat.le_zero.mp hk]
  | succ n ih =>
    rcases Nat.lt_or_eq_of_le hk with hlt | rfl
    · have hle : k ≤ n := Nat.le_of_lt_succ hlt
      rw [longest?, hnone (n + 1) hlt (Nat.le_refl _)]
      exact ih hle fun m hm hmn => hnone m hm (Nat.le_succ_of_le hmn)
    · rfl

/-- Fronts longer than the longest name may be left out. -/
theorem longest?_eq_of_length (hk : k ≤ n)
    (hlength : ∀ reference ∈ longest? find? text n, reference.length ≤ k) :
    longest? find? text n = longest? find? text k := by
  induction n with
  | zero => rw [Nat.le_zero.mp hk]
  | succ n ih =>
    rcases Nat.lt_or_eq_of_le hk with hlt | rfl
    · rw [longest?] at hlength ⊢
      split
      · next shown hshown =>
        rw [hshown] at hlength
        exact absurd (hlength _ rfl) (by simpa using hlt)
      · next hnone =>
        rw [hnone] at hlength
        exact ih (Nat.le_of_lt_succ hlt) hlength
    · rfl

/-- The letters and digits among which a name is looked for. -/
def nameRun (text : Text) : Text :=
  (text.take longestName).takeWhile Char.isAlphanum

theorem named?_eq (find? : Text → Option Text) (text : Text) : named? find? text =
    match if (text.drop (nameRun text).length).head? = some ';' && !(nameRun text).isEmpty then
      find? (nameRun text ++ [';']) else none with
    | some shown => some ⟨shown, (nameRun text).length + 1⟩
    | none => longest? find? text (nameRun text).length := rfl

/-- A named reference is a name with its semicolon, or the longest name among the letters and
digits. -/
theorem named?_cases {reference : Reference} (h : named? find? text = some reference) :
    (reference.length = (nameRun text).length + 1 ∧ text[(nameRun text).length]? = some ';' ∧
      find? (nameRun text ++ [';']) = some reference.shown) ∨
    longest? find? text (nameRun text).length = some reference := by
  rw [named?_eq] at h
  split at h
  · next shown hshown =>
    obtain rfl := Option.some.inj h
    split at hshown
    · next hcond =>
      simp only [Bool.and_eq_true, decide_eq_true_eq, List.head?_drop] at hcond
      exact .inl ⟨rfl, hcond.1, hshown⟩
    · cases hshown
  · exact .inr h

theorem isPrefix_nameRun (text : Text) : nameRun text <+: text :=
  (List.takeWhile_prefix _).trans (List.take_prefix _ _)

/-- Where the run ends in a front of the text, what follows the front does not matter. -/
theorem nameRun_append_of_ne (h : nameRun front ≠ front) (back : Text) :
    nameRun (front ++ back) = nameRun front := by
  unfold nameRun at h ⊢
  rw [List.take_append]
  by_cases hlong : longestName ≤ front.length
  · rw [Nat.sub_eq_zero_of_le hlong, List.take_zero, List.append_nil]
  · have hshort : front.take longestName = front := List.take_of_length_le (by omega)
    rw [hshort] at h ⊢
    rw [List.takeWhile_append, if_neg]
    intro hlength
    exact h ((List.takeWhile_prefix _).eq_of_length hlength)

/-- Where the run does not end in a front of the text, it goes on behind it. -/
theorem nameRun_append_of_eq (h : nameRun front = front) (back : Text) :
    nameRun (front ++ back) =
      front ++ (back.take (longestName - front.length)).takeWhile Char.isAlphanum := by
  have hshort : front.length ≤ longestName := by
    have hlength := congrArg List.length h
    have hle := (@List.takeWhile_prefix _ (front.take longestName) Char.isAlphanum).length_le
    rw [List.length_take] at hle
    unfold nameRun at hlength
    omega
  have hall : ∀ c ∈ front, c.isAlphanum = true := by
    intro c hc
    rw [← h] at hc
    exact List.all_eq_true.mp List.all_takeWhile c hc
  unfold nameRun
  rw [List.take_append, List.take_of_length_le hshort, List.takeWhile_append_of_pos hall]

/-! ### Words behind references -/

/-- A named reference is the longest name among the letters and digits unless a semicolon ends one. -/
theorem named?_eq_longest? (hsemicolon : (text.drop (nameRun text).length).head? = some ';' →
      find? (nameRun text ++ [';']) = none) :
    named? find? text = longest? find? text (nameRun text).length := by
  rw [named?_eq]
  split
  · next h =>
    split at h
    · next hcond =>
      simp only [Bool.and_eq_true, decide_eq_true_eq] at hcond
      rw [hsemicolon hcond.1] at h
      cases h
    · cases h
  · rfl

/-- Where the letters and digits go on into a word, no name does. -/
theorem named?_append_word_of_run (hword : SentinelWord word) (hfront : ¬ Completes front word)
    (hrun : nameRun front = front) :
    named? NamedCharacters.find? (front ++ (word ++ back)) =
      longest? NamedCharacters.find? (front ++ (word ++ back)) front.length := by
  have hnone {name : Text} (hne : name ≠ []) (hname : name <+: word ++ back) :
      NamedCharacters.find? (front ++ name) = none := hword.find?_eq_none hfront hne hname
  obtain ⟨run, hrun'⟩ : ∃ run, nameRun (front ++ (word ++ back)) = front ++ run :=
    ⟨_, nameRun_append_of_eq hrun _⟩
  obtain ⟨after, hafter⟩ : run <+: word ++ back := by
    have hprefix := isPrefix_nameRun (front ++ (word ++ back))
    rwa [hrun', List.prefix_append_right_inj] at hprefix
  rw [named?_eq_longest? ?_, hrun', List.length_append]
  · refine longest?_eq_of_none (Nat.le_add_right _ _) fun m hm _ => ?_
    rw [List.take_append, List.take_of_length_le (Nat.le_of_lt hm)]
    refine hnone ?_ (List.take_prefix _ _)
    have hne : word ++ back ≠ [] := List.append_ne_nil_of_left_ne_nil hword.ne_nil back
    simp only [ne_eq, List.take_eq_nil_iff, hne, or_false]
    omega
  · rw [hrun', List.length_append, ← List.drop_drop, List.drop_left, List.append_assoc,
      ← hafter, List.drop_left]
    intro hhead
    obtain ⟨tail, rfl⟩ := List.head?_eq_some_iff.mp hhead
    exact hnone (by simp) ⟨tail, by simpa using hafter⟩

/-- Where the letters and digits go on behind a front, a reference that ends in the front is the
longest name there. -/
theorem named?_append_of_run (hrun : nameRun front = front)
    (hlength : ∀ reference ∈ named? find? (front ++ rest), reference.length ≤ front.length) :
    named? find? (front ++ rest) = longest? find? (front ++ rest) front.length := by
  obtain ⟨run, hrun'⟩ : ∃ run, nameRun (front ++ rest) = front ++ run :=
    ⟨_, nameRun_append_of_eq hrun _⟩
  rw [named?_eq] at hlength ⊢
  rw [hrun', List.length_append] at hlength ⊢
  split
  · next shown hshown =>
    rw [hshown] at hlength
    have hle := hlength _ rfl
    dsimp only at hle
    omega
  · next hnone =>
    rw [hnone] at hlength
    exact longest?_eq_of_length (Nat.le_add_right _ _) hlength

theorem named?_append_word (hword : SentinelWord word) (hfront : ¬ Completes front word)
    (hlength : ∀ reference ∈ named? NamedCharacters.find? (front ++ rest),
      reference.length ≤ front.length) :
    named? NamedCharacters.find? (front ++ (word ++ back)) =
      named? NamedCharacters.find? (front ++ rest) := by
  have htake (X : Text) {n : Nat} (hn : n ≤ front.length) : (front ++ X).take n = front.take n :=
    List.take_append_of_le_length hn
  by_cases hrun : nameRun front = front
  · -- The letters and digits go on behind the front, but no name does.
    rw [named?_append_word_of_run hword hfront hrun, named?_append_of_run hrun hlength]
    exact longest?_congr (by rw [htake _ (Nat.le_refl _), htake _ (Nat.le_refl _)])
  · have hshort : (nameRun front).length < front.length :=
      Nat.lt_of_le_of_ne (isPrefix_nameRun front).length_le
        fun heq => hrun ((isPrefix_nameRun front).eq_of_length heq)
    have hdrop (X : Text) : ((front ++ X).drop (nameRun front).length).head? =
        (front.drop (nameRun front).length).head? := by
      simp only [List.head?_drop, List.getElem?_append_left hshort]
    have hlongest : longest? NamedCharacters.find? (front ++ (word ++ back)) (nameRun front).length =
        longest? NamedCharacters.find? (front ++ rest) (nameRun front).length :=
      longest?_congr (by rw [htake _ hshort.le, htake _ hshort.le])
    rw [named?_eq, named?_eq, nameRun_append_of_ne hrun, nameRun_append_of_ne hrun, hdrop, hdrop,
      hlongest]

/-- A numeric reference is read from its digits, if a semicolon comes early enough. -/
theorem numeric?_congr
    (hcontains : (text.take numericReach).contains ';' = (text'.take numericReach).contains ';')
    (hdigits : (text.take numericReach).takeWhile (· != ';') =
      (text'.take numericReach).takeWhile (· != ';')) : numeric? text = numeric? text' := by
  unfold numeric?
  rw [hcontains, hdigits]

/-- A numeric reference ends with the first semicolon. -/
theorem length_of_numeric? (h : numeric? text = some reference) :
    ';' ∈ text.take numericReach ∧
      reference.length = ((text.take numericReach).takeWhile (· != ';')).length + 2 := by
  unfold numeric? at h
  obtain ⟨_, hguard, h⟩ := Option.bind_eq_some_iff.mp h
  obtain ⟨code, -, h⟩ := Option.bind_eq_some_iff.mp h
  obtain ⟨c, -, h⟩ := Option.bind_eq_some_iff.mp h
  rw [← Option.some.inj h]
  refine ⟨List.contains_iff_mem.mp ?_, rfl⟩
  by_contra hmem
  rw [Bool.eq_false_iff.mpr hmem] at hguard
  cases hguard

/-- A numeric reference ends with a semicolon that comes early enough, whatever follows. -/
theorem numeric?_append_of_mem (hmem : ';' ∈ front.take numericReach) (back : Text) :
    numeric? (front ++ back) = numeric? front := by
  have htake : (front ++ back).take numericReach =
      front.take numericReach ++ back.take (numericReach - front.length) := List.take_append
  refine numeric?_congr ?_ ?_
  · rw [htake, List.contains_iff_mem.mpr hmem,
      List.contains_iff_mem.mpr (List.mem_append_left _ hmem)]
  · rw [htake, List.takeWhile_append, if_neg]
    intro hall
    have heq := (List.takeWhile_prefix (· != ';')).eq_of_length hall
    rw [← heq] at hmem
    simpa using List.all_eq_true.mp List.all_takeWhile _ hmem

theorem numeric?_eq_none (h : ';' ∉ text.take numericReach) : numeric? text = none := by
  by_contra hsome
  obtain ⟨reference, hreference⟩ := Option.ne_none_iff_exists'.mp hsome
  exact h (length_of_numeric? hreference).1

theorem numeric?_append_word (hword : SentinelWord word)
    (hlength : ∀ reference ∈ numeric? (front ++ rest), reference.length ≤ front.length + 1) :
    numeric? (front ++ (word ++ back)) = numeric? (front ++ rest) := by
  have htake (X : Text) : (front ++ X).take numericReach =
      front.take numericReach ++ X.take (numericReach - front.length) := List.take_append
  by_cases hmem : ';' ∈ front.take numericReach
  · rw [numeric?_append_of_mem hmem, numeric?_append_of_mem hmem]
  · -- No semicolon comes early enough: the word holds none.
    have hnew : numeric? (front ++ (word ++ back)) = none := by
      have hlong : numericReach - front.length ≤ word.length :=
        Nat.le_trans (Nat.sub_le _ _) (Nat.le_of_lt hword.long)
      refine numeric?_eq_none fun hsemicolon => ?_
      rw [htake, List.take_append_of_le_length hlong, List.mem_append] at hsemicolon
      rcases hsemicolon with h | h
      · exact hmem h
      · exact absurd (hword.alnum _ (List.mem_of_mem_take h)) (by decide)
    have hold : numeric? (front ++ rest) = none := by
      by_contra hsome
      obtain ⟨reference, hreference⟩ := Option.ne_none_iff_exists'.mp hsome
      have hle := hlength reference hreference
      obtain ⟨hsemicolon, heq⟩ := length_of_numeric? hreference
      rw [htake] at hsemicolon heq
      -- The digits run at least to the end of the front.
      have hshort : front.length < numericReach := by
        by_contra hlong
        rw [Nat.sub_eq_zero_of_le (Nat.not_lt.mp hlong), List.take_zero, List.append_nil]
          at hsemicolon
        exact hmem hsemicolon
      have hall : ∀ c ∈ front.take numericReach, (c != ';') = true := by
        intro c hc
        rw [bne_iff_ne]
        rintro rfl
        exact hmem hc
      rw [List.takeWhile_append_of_pos hall, List.length_append,
        List.take_of_length_le hshort.le] at heq
      omega
    rw [hnew, hold]

/-- A named reference is not empty and lies in the text. -/
theorem length_of_named? (h : named? find? text = some reference) :
    0 < reference.length ∧ reference.length ≤ text.length := by
  rcases named?_cases h with ⟨hlength, hsemicolon, -⟩ | h
  · obtain ⟨hlt, -⟩ := List.getElem?_eq_some_iff.mp hsemicolon
    rw [hlength]
    exact ⟨Nat.succ_pos _, hlt⟩
  · obtain ⟨hpos, hlength⟩ := length_of_longest? h
    exact ⟨hpos, Nat.le_trans hlength (isPrefix_nameRun text).length_le⟩

/-- A reference is not empty and lies in the text. -/
theorem length_of_read? (h : read? text = some reference) :
    0 < reference.length ∧ reference.length ≤ text.length := by
  unfold read? at h
  split at h
  · next text =>
    obtain ⟨hmem, hlength⟩ := length_of_numeric? h
    have hlt : ((text.take numericReach).takeWhile (· != ';')).length <
        (text.take numericReach).length := by
      refine Nat.lt_of_le_of_ne (List.takeWhile_prefix _).length_le fun heq => ?_
      rw [← (List.takeWhile_prefix _).eq_of_length heq] at hmem
      simpa using List.all_eq_true.mp List.all_takeWhile _ hmem
    have hle : (text.take numericReach).length ≤ text.length := List.length_take_le' _ _
    rw [List.length_cons]
    omega
  · exact length_of_named? h

theorem read?_eq_named? (h : text.head? ≠ some '#') :
    read? text = named? NamedCharacters.find? text := by
  unfold read?
  split
  · exact absurd rfl h
  · rfl

/-- **References before sentinels.**  Words of sentinels that stand behind a reference, or behind text
that is no reference, change nothing about it, unless the first letter of the word completes a name. -/
theorem read?_append_word (hword : SentinelWord word) (hfront : ¬ Completes front word)
    (hlength : ∀ reference ∈ read? (front ++ rest), reference.length ≤ front.length) :
    read? (front ++ (word ++ back)) = read? (front ++ rest) := by
  cases front with
  | nil =>
    have hrest : read? ([] ++ rest) = none := by
      by_contra hsome
      obtain ⟨reference, hreference⟩ := Option.ne_none_iff_exists'.mp hsome
      exact absurd (hlength reference hreference) (Nat.not_le.mpr (length_of_read? hreference).1)
    have hhead : (word ++ back).head? ≠ some '#' := by
      rcases hword.front with ⟨tail, rfl⟩ | ⟨tail, rfl⟩ <;> simp
    rw [hrest, List.nil_append, read?_eq_named? hhead]
    have hempty : ∀ reference ∈ named? NamedCharacters.find? ([] ++ []),
        reference.length ≤ ([] : Text).length := fun reference h => by cases h
    exact @named?_append_word [] word back [] hword hfront hempty
  | cons c front =>
    by_cases hc : c = '#'
    · obtain rfl := hc
      exact numeric?_append_word hword hlength
    · have hhead (tail : Text) : (c :: tail).head? ≠ some '#' := fun h => hc (Option.some.inj h)
      rw [List.cons_append, read?_eq_named? (hhead _)] at hlength
      rw [List.cons_append, List.cons_append, read?_eq_named? (hhead _), read?_eq_named? (hhead _)]
      exact named?_append_word hword hfront hlength

end Reference

end Marginalia.Markup
