import Marginalia.Proofs.Markup.Range

/-! # Names are read by longest match

A named reference is searched for in a few places only: the letters and digits behind the ampersand, up
to the length of the longest name, with the semicolon behind them, and then their fronts, the longest
first.  With a table whose names have the right shape (`IsName`) the text can begin with a name nowhere
else (`IsName.front_cases`).  So the reference that is read is the longest name that the text begins
with, and there is none only if the text begins with no name (`named?_longest`).
-/
namespace Marginalia.Markup

open Text

namespace Reference

variable {find? : Text → Option Text} {text name name' shown : Text} {reference : Reference} {n k : Nat}

/-! ### Where names can stand -/

/-- The shape of names: from one letter or digit up to as many as the longest name has, and then a
semicolon or nothing. -/
def IsName (name : Text) : Prop :=
  ∃ word, (name = word ∨ name = word ++ [';']) ∧ (∀ c ∈ word, c.isAlphanum = true) ∧
    0 < word.length ∧ word.length ≤ longestName

/-- The word is the letters and digits at the front of the name. -/
theorem isName_iff : IsName name ↔
    (name.dropWhile Char.isAlphanum = [] ∨ name.dropWhile Char.isAlphanum = [';']) ∧
      0 < (name.takeWhile Char.isAlphanum).length ∧
      (name.takeWhile Char.isAlphanum).length ≤ longestName := by
  constructor
  · rintro ⟨word, hsplit, hword, hpos, hlength⟩
    rcases hsplit with rfl | rfl
    · obtain ⟨htake, hdrop⟩ := takeWhile_append_stop hword (stops_nil _)
      rw [List.append_nil] at htake hdrop
      rw [htake, hdrop]
      exact ⟨.inl rfl, hpos, hlength⟩
    · have hstop : Stops Char.isAlphanum [';'] := stops_cons.mpr (by decide)
      obtain ⟨htake, hdrop⟩ := takeWhile_append_stop hword hstop
      rw [htake, hdrop]
      exact ⟨.inr rfl, hpos, hlength⟩
  · rintro ⟨hsplit, hpos, hlength⟩
    have hname := @List.takeWhile_append_dropWhile _ Char.isAlphanum name
    refine ⟨_, ?_, List.all_eq_true.mp List.all_takeWhile, hpos, hlength⟩
    rcases hsplit with hnil | hsemicolon
    · rw [hnil, List.append_nil] at hname
      exact .inl hname.symm
    · rw [hsemicolon] at hname
      exact .inr hname.symm

instance (name : Text) : Decidable (IsName name) :=
  decidable_of_iff' _ isName_iff

theorem nameRun_of_isAlphanum (hname : ∀ c ∈ name, c.isAlphanum = true)
    (hlength : name.length ≤ longestName) : nameRun name = name := by
  have hrun := (takeWhile_append_stop hname (stops_nil _)).1
  rw [List.append_nil] at hrun
  rw [nameRun, List.take_of_length_le hlength, hrun]

/-- A name that the text begins with is a front of the letters and digits, or all of them and the
semicolon behind them. -/
theorem IsName.front_cases (hname : IsName name) (hfront : name <+: text) :
    0 < name.length ∧ name <+: nameRun text ∨
      nameRun text ≠ [] ∧ name = nameRun text ++ [';'] := by
  obtain ⟨word, hsplit, hword, hpos, hlength⟩ := hname
  have hrun := nameRun_of_isAlphanum hword hlength
  obtain ⟨back, rfl⟩ := hfront
  rcases hsplit with rfl | rfl
  · refine .inl ⟨hpos, ?_⟩
    rw [nameRun_append_of_eq hrun]
    exact List.prefix_append _ _
  · -- The letters and digits end with the semicolon.
    have hends : nameRun (word ++ [';'] ++ back) = word := by
      rw [List.append_assoc, nameRun_append_of_eq hrun]
      cases longestName - word.length with
      | zero => exact List.append_nil word
      | succ k => exact List.append_nil word
    rw [hends]
    exact .inr ⟨List.ne_nil_of_length_pos hpos, rfl⟩

/-! ### What the search finds -/

/-- The search through the fronts of the text finds one that is at least as long as any name among
them. -/
theorem exists_longest? (hpos : 0 < k) (hle : k ≤ n) (hfind : find? (text.take k) = some shown) :
    ∃ reference, longest? find? text n = some reference ∧ k ≤ reference.length := by
  induction n with
  | zero => omega
  | succ n ih =>
    rw [longest?]
    cases hlast : find? (text.take (n + 1)) with
    | some last => exact ⟨_, rfl, hle⟩
    | none =>
      have hne : k ≠ n + 1 := by
        rintro rfl
        rw [hlast] at hfind
        cases hfind
      exact ih (by omega)

/-- Where the text begins with a name, one that is at least as long is read. -/
theorem exists_named? (hname : IsName name) (hfront : name <+: text) (hfind : find? name = some shown) :
    ∃ reference, named? find? text = some reference ∧ name.length ≤ reference.length := by
  rw [named?_eq]
  rcases hname.front_cases hfront with ⟨hpos, hrun⟩ | ⟨hrun, rfl⟩
  · have htake : find? (text.take name.length) = some shown := by
      rw [← List.prefix_iff_eq_take.mp hfront]
      exact hfind
    split
    · exact ⟨_, rfl, Nat.le_succ_of_le hrun.length_le⟩
    · exact exists_longest? hpos hrun.length_le htake
  · -- The semicolon stands behind the letters and digits, so they are looked up with it.
    have hsemicolon : (text.drop (nameRun text).length).head? = some ';' := by
      obtain ⟨back, hback⟩ := hfront
      have hdrop := congrArg (fun t : Text => (t.drop (nameRun text).length).head?) hback
      rw [List.append_assoc, List.drop_left] at hdrop
      exact hdrop.symm
    have hcond : (decide ((text.drop (nameRun text).length).head? = some ';') &&
        !(nameRun text).isEmpty) = true := by
      rw [hsemicolon, decide_eq_true rfl, Bool.true_and, Bool.not_eq_true', List.isEmpty_eq_false_iff]
      exact hrun
    rw [if_pos hcond, hfind]
    exact ⟨_, rfl, by rw [List.length_append, List.length_singleton]⟩

/-- The name is the longest one that the text begins with. -/
structure IsLongestName (find? : Text → Option Text) (text name : Text) : Prop where
  front : name <+: text
  known : (find? name).isSome = true
  longest : ∀ other, other <+: text → (find? other).isSome = true → other.length ≤ name.length

theorem IsLongestName.unique (h : IsLongestName find? text name)
    (h' : IsLongestName find? text name') : name = name' := by
  have hlength : name.length = name'.length :=
    Nat.le_antisymm (h'.longest name h.front h.known) (h.longest name' h'.front h'.known)
  exact (List.prefix_of_prefix_length_le h.front h'.front hlength.le).eq_of_length hlength

/-- The reference that is read is the longest name. -/
theorem isLongestName_of_named? (hnames : ∀ name shown, find? name = some shown → IsName name)
    (h : named? find? text = some reference) :
    IsLongestName find? text (text.take reference.length) where
  front := List.take_prefix _ _
  known := by rw [find?_of_named? h]; rfl
  longest := by
    intro other hfront hknown
    obtain ⟨shown, hfind⟩ := Option.isSome_iff_exists.mp hknown
    obtain ⟨found, hfound, hle⟩ := exists_named? (hnames other shown hfind) hfront hfind
    obtain rfl : reference = found := Option.some.inj (h.symm.trans hfound)
    rw [List.length_take_of_le (length_of_named? h).2]
    exact hle

/-- **Named references are read by longest match.**  With any table of names, a reference is read exactly
if it is what the table has for the longest name that the text begins with, and it is as long as that
name.  Nothing is read exactly if the text begins with no name. -/
theorem named?_longest (hnames : ∀ name shown, find? name = some shown → IsName name) (text : Text) :
    (∀ reference, named? find? text = some reference ↔
      ∃ name, IsLongestName find? text name ∧ find? name = some reference.shown ∧
        reference.length = name.length) ∧
    (named? find? text = none ↔ ∀ name, name <+: text → find? name = none) := by
  refine ⟨fun reference => ⟨fun h => ?_, ?_⟩, fun h name hfront => ?_, fun hnone => ?_⟩
  · refine ⟨text.take reference.length, isLongestName_of_named? hnames h, find?_of_named? h, ?_⟩
    rw [List.length_take_of_le (length_of_named? h).2]
  · rintro ⟨name, hlongest, hfind, hlength⟩
    obtain ⟨found, hfound, -⟩ := exists_named? (hnames name _ hfind) hlongest.front hfind
    obtain rfl := hlongest.unique (isLongestName_of_named? hnames hfound)
    rw [List.length_take_of_le (length_of_named? hfound).2] at hlength
    rw [find?_of_named? hfound] at hfind
    rw [hfound]
    obtain ⟨shown, length⟩ := reference
    obtain rfl : found.shown = shown := Option.some.inj hfind
    obtain rfl : length = found.length := hlength
    rfl
  · by_contra hsome
    obtain ⟨shown, hfind⟩ := Option.ne_none_iff_exists'.mp hsome
    obtain ⟨reference, hread, -⟩ := exists_named? (hnames name shown hfind) hfront hfind
    rw [h] at hread
    cases hread
  · by_contra hsome
    obtain ⟨reference, hread⟩ := Option.ne_none_iff_exists'.mp hsome
    have hfind := find?_of_named? hread
    rw [hnone _ (List.take_prefix _ _)] at hfind
    cases hfind

end Reference

/-! ### The names of characters -/

namespace NamedCharacters

/-- The character of ASCII with the given code. -/
def ofCode (code : UInt8) : Char :=
  Char.ofNat code.toNat

/-- A name of characters of ASCII is read off its bytes, which is quicker than decoding it. -/
theorem toList_of_codes {name : String} (h : ∀ code ∈ codes name, code < 0x80) :
    name.toList = (codes name).map ofCode := by
  have hchar : ∀ n : Fin 0x80, String.utf8EncodeChar (Char.ofNat n.val) = [UInt8.ofNat n.val] := by
    decide +kernel
  have hbytes : ∀ bytes : List UInt8, (∀ code ∈ bytes, code < 0x80) →
      codes (.ofList (bytes.map ofCode)) = bytes := by
    intro bytes hbytes
    induction bytes with
    | nil => rfl
    | cons code bytes ih =>
      obtain ⟨hcode, hrest⟩ := List.forall_mem_cons.mp hbytes
      have hone := hchar ⟨code.toNat, UInt8.lt_iff_toNat_lt.mp hcode⟩
      rw [UInt8.ofNat_toNat] at hone
      have hfirst : codes (.ofList [ofCode code]) = [code] := by
        rw [codes, String.toByteArray_ofList, List.utf8Encode_singleton, ofCode, hone]
        rfl
      rw [List.map_cons, ← List.singleton_append, codes_append, ih hrest, hfirst]
      rfl
  have hname : name = .ofList ((codes name).map ofCode) := by
    have hsame := hbytes (codes name) h
    rw [← String.toByteArray_inj, ByteArray.ext_iff, ← Array.toList_inj]
    exact hsame.symm
  conv => lhs; rw [hname]
  exact String.toList_ofList

/-- Every name of the table has the shape of names. -/
theorem isName_startingWith (c : Char) : (startingWith c).all (fun entry =>
      (codes entry.1).all (· < 0x80) && decide (Reference.IsName ((codes entry.1).map ofCode))) =
    true := by
  unfold startingWith
  split <;> decide +kernel

theorem isName_of_find? {name shown : Text} (h : find? name = some shown) :
    Reference.IsName name := by
  obtain ⟨c, text, hmem, -⟩ := exists_mem_of_find? h
  have hentry := List.all_eq_true.mp (isName_startingWith c) _ hmem
  obtain ⟨hcodes, hname⟩ := Bool.and_eq_true_iff.mp hentry
  have hlist := toList_of_codes fun code hcode =>
    of_decide_eq_true (List.all_eq_true.mp hcodes code hcode)
  rw [String.toList_ofList] at hlist
  rw [hlist]
  exact of_decide_eq_true hname

end NamedCharacters

namespace Reference

/-- An older name without its semicolon, where a longer name goes on differently. -/
theorem named?_longest_not :
    let text := "notit; x".toList
    (∀ name shown, NamedCharacters.find? name = some shown → IsName name) ∧
      named? NamedCharacters.find? text = some ⟨['¬'], 3⟩ ∧
      ∃ name, IsLongestName NamedCharacters.find? text name ∧
        NamedCharacters.find? name = some ['¬'] ∧ 3 = name.length := by
  intro text
  have hnames : ∀ name shown, NamedCharacters.find? name = some shown → IsName name :=
    fun _ _ => NamedCharacters.isName_of_find?
  have hread : named? NamedCharacters.find? text = some ⟨['¬'], 3⟩ := by decide +kernel
  exact ⟨hnames, hread, ((named?_longest hnames text).1 ⟨['¬'], 3⟩).mp hread⟩

end Reference

end Marginalia.Markup
