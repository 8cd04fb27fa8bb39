import Marginalia.Proofs.Nesting.Cutting
import Marginalia.Proofs.Sentinel
import Marginalia.Style
import Mathlib.Data.List.Nodup
import Mathlib.Data.List.Perm.Subperm

/-! # Slugs and the keys of styles

A slug is made of lower-case letters and digits of ASCII and of hyphens, and it has at least one
character (`Slug.Names`).  There is always a number that gives a tag a slug which is not taken, because
one more slug is tried than there are taken ones (`Slug.fresh_not_mem`).  So the tags of a table have
slugs of their own, and no number is greater than there are tags (`StyleTable.nodup_slugs`,
`StyleTable.names_of_mem`).

The key of a style is ordinary text: it can stand in an argument as it is (`ordinary_of_isKeyChar`,
`isKeyChar_of_find?`).
-/
namespace Marginalia

open Text Latex

/-- A character that a slug can have. -/
def isSlugChar (c : Char) : Bool :=
  c.isLower || c.isDigit || c == '-'

/-- A character that a key can have. -/
def isKeyChar (c : Char) : Bool :=
  c.isAlphanum || c == '-'

theorem isKeyChar_of_isSlugChar {c : Char} (h : isSlugChar c = true) : isKeyChar c = true := by
  unfold isSlugChar at h
  change (c.isUpper || c.isLower || c.isDigit || c == '-') = true
  cases hlower : c.isLower <;> cases hdigit : c.isDigit <;> simp_all

theorem ordinary_of_isKeyChar {c : Char} (h : isKeyChar c = true) : Ordinary c := by
  refine ⟨⟨⟨?_, ?_, ?_, ?_⟩, ?_, ?_⟩, ?_, ?_⟩ <;>
    (rintro rfl; exact absurd h (by decide))

theorem isSlugChar_toLower {c : Char} (h : c.isAlphanum = true) :
    isSlugChar c.toLower = true := by
  unfold Char.toLower
  split
  · next hupper =>
    -- Upper-case letters lie as far apart from lower-case letters as the first of each.
    have hlower (hvalid : (c.val + ('a'.val - 'A'.val)).isValidChar) :
        Char.isLower ⟨c.val + ('a'.val - 'A'.val), hvalid⟩ = true := by
      have hbounds : c.val.toNat ≥ 65 ∧ c.val.toNat ≤ 90 :=
        ⟨UInt32.le_iff_toNat_le.mp hupper.1, UInt32.le_iff_toNat_le.mp hupper.2⟩
      have hshift : (c.val + ('a'.val - 'A'.val)).toNat = (c.val.toNat + 32) % 2 ^ 32 :=
        UInt32.toNat_add ..
      refine Bool.and_eq_true_iff.mpr ⟨decide_eq_true ?_, decide_eq_true ?_⟩
      · refine UInt32.le_iff_toNat_le.mpr ?_
        change 97 ≤ (c.val + ('a'.val - 'A'.val)).toNat
        omega
      · refine UInt32.le_iff_toNat_le.mpr ?_
        change (c.val + ('a'.val - 'A'.val)).toNat ≤ 122
        omega
    refine Bool.or_eq_true_iff.mpr (.inl (Bool.or_eq_true_iff.mpr (.inl ?_)))
    exact hlower _
  · next hupper =>
    have hnot : c.isUpper = false := decide_eq_false hupper
    change (c.isUpper || c.isLower || c.isDigit) = true at h
    rw [hnot, Bool.false_or] at h
    rw [isSlugChar, h, Bool.true_or]

namespace Slug

theorem isSlugChar_of_mem_words {text word : Text} (h : word ∈ words text) :
    word ≠ [] ∧ ∀ c ∈ word, isSlugChar c = true := by
  induction text generalizing word with
  | nil => cases h
  | cons c text ih =>
    unfold words at h
    by_cases hc : c.isAlphanum = true
    · have hsingle : [c.toLower] ≠ [] ∧ ∀ d ∈ [c.toLower], isSlugChar d = true :=
        ⟨List.cons_ne_nil _ _, List.forall_mem_cons.mpr ⟨isSlugChar_toLower hc, by simp⟩⟩
      rw [if_pos hc] at h
      split at h
      · next d text first rest hwords =>
        split at h
        · rcases List.mem_cons.mp h with rfl | h
          · refine ⟨List.cons_ne_nil _ _,
              List.forall_mem_cons.mpr ⟨isSlugChar_toLower hc, (ih ?_).2⟩⟩
            rw [hwords]
            exact List.mem_cons_self
          · exact ih (hwords ▸ List.mem_cons_of_mem _ h)
        · rcases List.mem_cons.mp h with rfl | h
          · exact hsingle
          · exact ih (hwords ▸ h)
      · rcases List.mem_cons.mp h with rfl | h
        · exact hsingle
        · exact ih h
    · rw [if_neg hc] at h
      exact ih h

theorem isSlugChar_of_mem_base (tag : Text) : ∀ c ∈ base tag, isSlugChar c = true := by
  unfold base
  split
  · decide
  · intro c hc
    obtain ⟨word, hword, hmem⟩ := List.mem_flatten.mp hc
    rcases eq_or_mem_of_mem_intersperse hword with rfl | hword
    · obtain rfl := List.mem_singleton.mp hmem
      rfl
    · exact (isSlugChar_of_mem_words hword).2 c hmem

theorem base_ne_nil (tag : Text) : base tag ≠ [] := by
  unfold base
  split
  · decide
  · next ws hne =>
    intro hnil
    cases hwords : words tag with
    | nil => exact hne hwords
    | cons word rest =>
      have hmem : word ∈ words tag := hwords ▸ List.mem_cons_self
      refine (isSlugChar_of_mem_words hmem).1 (List.flatten_eq_nil_iff.mp hnil word ?_)
      rw [hwords]
      cases rest <;> exact List.mem_cons_self

/-- A slug of a tag: that of its words, or this with a number from two up to a limit. -/
def Names (limit : Nat) (tag slug : Text) : Prop :=
  slug = base tag ∨ ∃ n, 2 ≤ n ∧ n ≤ limit ∧ slug = numbered (base tag) n

theorem Names.mono {limit limit' : Nat} {tag slug : Text} (h : Names limit tag slug)
    (hle : limit ≤ limit') : Names limit' tag slug := by
  rcases h with rfl | ⟨n, htwo, hlimit, rfl⟩
  · exact .inl rfl
  · exact .inr ⟨n, htwo, hlimit.trans hle, rfl⟩

theorem Names.ne_nil {limit : Nat} {tag slug : Text} (h : Names limit tag slug) : slug ≠ [] := by
  rcases h with rfl | ⟨n, -, -, rfl⟩
  · exact base_ne_nil tag
  · exact List.append_ne_nil_of_left_ne_nil (base_ne_nil tag) _

theorem Names.isSlugChar {limit : Nat} {tag slug : Text} (h : Names limit tag slug) :
    ∀ c ∈ slug, isSlugChar c = true := by
  have hbase := isSlugChar_of_mem_base tag
  rcases h with rfl | ⟨n, -, -, rfl⟩
  · exact hbase
  · intro c hc
    rcases List.mem_append.mp hc with hc | hc
    · exact hbase c hc
    · rcases List.mem_cons.mp hc with rfl | hc
      · rfl
      · have hdigit := Sentinel.isDigit_of_mem_decimal hc
        simp [Marginalia.isSlugChar, hdigit]

/-- The slugs that are tried for a tag when some number of slugs is taken. -/
def candidates (count : Nat) (tag : Text) : List Text :=
  base tag :: (List.range count).map fun k => numbered (base tag) (k + 2)

theorem names_of_mem_candidates {count : Nat} {tag slug : Text}
    (h : slug ∈ candidates count tag) : Names (count + 1) tag slug := by
  rcases List.mem_cons.mp h with rfl | h
  · exact .inl rfl
  · obtain ⟨k, hk, rfl⟩ := List.mem_map.mp h
    have hlt := List.mem_range.mp hk
    exact .inr ⟨k + 2, by omega, by omega, rfl⟩

theorem numbered_injective (slug : Text) : Function.Injective (numbered slug) := by
  intro m n h
  have hdigits : decimal m = decimal n := (List.cons.inj (List.append_cancel_left h)).2
  calc m = Nat.ofDigitChars 10 (decimal m) 0 := Nat.ofDigitChars_ten_toDigits.symm
    _ = Nat.ofDigitChars 10 (decimal n) 0 := by rw [hdigits]
    _ = n := Nat.ofDigitChars_ten_toDigits

theorem nodup_candidates (count : Nat) (tag : Text) : (candidates count tag).Nodup := by
  refine List.nodup_cons.mpr ⟨?_, ?_⟩
  · intro h
    obtain ⟨k, -, heq⟩ := List.mem_map.mp h
    have hlength := congrArg List.length heq
    simp [numbered] at hlength
  · refine List.Nodup.map (fun k l h => ?_) List.nodup_range
    have hsucc := numbered_injective _ h
    omega

/-- One slug more is tried than there are taken ones, so not all of them can be taken. -/
theorem exists_candidate (taken : List Text) (tag : Text) :
    ∃ slug ∈ candidates taken.length tag, slug ∉ taken := by
  by_contra! hall
  have hlength := (List.subperm_of_subset (nodup_candidates taken.length tag) hall).length_le
  rw [candidates, List.length_cons, List.length_map, List.length_range] at hlength
  omega

theorem fresh_cases (taken : List Text) (tag : Text) :
    fresh taken tag ∈ candidates taken.length tag ∧ fresh taken tag ∉ taken := by
  obtain ⟨slug, hmem, hnew⟩ := exists_candidate taken tag
  have hfresh : fresh taken tag = ((candidates taken.length tag).find? fun candidate =>
      !taken.contains candidate).getD (base tag) := rfl
  cases hfind : (candidates taken.length tag).find? fun candidate => !taken.contains candidate with
  | none =>
    have hnone := List.find?_eq_none.mp hfind slug hmem
    simp [hnew] at hnone
  | some found =>
    rw [hfresh, hfind, Option.getD_some]
    have hfound := List.find?_some hfind
    exact ⟨List.mem_of_find?_eq_some hfind, by simpa using hfound⟩

theorem fresh_not_mem (taken : List Text) (tag : Text) : fresh taken tag ∉ taken :=
  (fresh_cases taken tag).2

theorem names_fresh (taken : List Text) (tag : Text) :
    Names (taken.length + 1) tag (fresh taken tag) :=
  names_of_mem_candidates (fresh_cases taken tag).1

end Slug

namespace StyleTable

variable {tags : TagMap} {settings : StyleSettings} {used : List String} {tag : String}
  {style : TagStyle}

/-- The slugs given to tags are not taken before, and no two tags are given the same. -/
theorem nodup_slugs_stylesFrom (taken : List Text) (sorted : List String) :
    (∀ entry ∈ stylesFrom tags settings taken sorted, entry.2.slug ∉ taken) ∧
      ((stylesFrom tags settings taken sorted).map fun entry => entry.2.slug).Nodup := by
  induction sorted generalizing taken with
  | nil => simp [stylesFrom]
  | cons first rest ih =>
    obtain ⟨hnew, hnodup⟩ := ih ((styleOf tags settings taken first).slug :: taken)
    rw [stylesFrom]
    constructor
    · intro entry hentry
      rcases List.mem_cons.mp hentry with rfl | hentry
      · exact Slug.fresh_not_mem taken first.toList
      · exact fun h => hnew entry hentry (List.mem_cons_of_mem _ h)
    · refine List.nodup_cons.mpr ⟨?_, hnodup⟩
      intro hmem
      obtain ⟨entry, hentry, heq⟩ := List.mem_map.mp hmem
      exact hnew entry hentry (heq ▸ List.mem_cons_self)

theorem nodup_slugs (tags : TagMap) (settings : StyleSettings) (used : List String) :
    ((ofTags tags settings used).styles.map fun entry => entry.2.slug).Nodup :=
  (nodup_slugs_stylesFrom [] (sortTags used)).2

theorem names_of_mem_stylesFrom {taken : List Text} {sorted : List String}
    (h : (tag, style) ∈ stylesFrom tags settings taken sorted) :
    Slug.Names (taken.length + sorted.length) tag.toList style.slug := by
  induction sorted generalizing taken with
  | nil => cases h
  | cons first rest ih =>
    rw [stylesFrom] at h
    rcases List.mem_cons.mp h with heq | h
    · obtain ⟨rfl, rfl⟩ := Prod.mk.inj heq
      refine (Slug.names_fresh taken tag.toList).mono ?_
      rw [List.length_cons]
      omega
    · refine (ih h).mono ?_
      rw [List.length_cons, List.length_cons]
      omega

/-- The slug of a style of a table names its tag, with a number that is not greater than there are
tags in use. -/
theorem names_of_mem (h : (tag, style) ∈ (ofTags tags settings used).styles) :
    Slug.Names (sortTags used).length tag.toList style.slug := by
  have hnames := names_of_mem_stylesFrom h
  rwa [List.length_nil, Nat.zero_add] at hnames

/-- Every style of a table has a key that can stand in an argument. -/
theorem isKeyChar_of_mem (h : (tag, style) ∈ (ofTags tags settings used).styles) :
    ∀ c ∈ style.key, isKeyChar c = true := by
  intro c hc
  rcases List.mem_append.mp hc with hc | hc
  · exact (by decide : ∀ c ∈ "tag-".toList, isKeyChar c = true) c hc
  · exact isKeyChar_of_isSlugChar ((names_of_mem h).isSlugChar c hc)

/-- The style found for a tag is one of the table. -/
theorem mem_of_find? {table : StyleTable} (h : table.find? tag = some style) :
    (tag, style) ∈ table.styles := by
  obtain ⟨front, rest, hstyles, -⟩ := List.lookup_eq_some_iff.mp h
  rw [hstyles]
  exact List.mem_append_right front List.mem_cons_self

theorem isKeyChar_of_find? (h : (ofTags tags settings used).find? tag = some style) :
    ∀ c ∈ style.key, isKeyChar c = true :=
  isKeyChar_of_mem (mem_of_find? h)

end StyleTable

end Marginalia
