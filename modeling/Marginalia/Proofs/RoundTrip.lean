import Marginalia.Proofs.Region
import Mathlib.Data.List.Chain

/-! # Which texts are read, and what is read of them

Here the text is any text, not one that was put together from pieces and marks.  It is read as tokens
exactly if no mark comes twice and starts and ends are paired (`exists_ofText_iff`), and it passes the
check of the round trip as well exactly if its marks are those of the injected highlights, each once
and each start before its end (`accepts_iff_intact`).

Where every sentinel has an index, the literals that are read are the text without its sentinels, and
nowhere else (`exact_iff`): a sentinel with digits of another script is given out as text together with
the run before it, which has been given out already.
-/
namespace Marginalia

open Text Sentinel

namespace IndexSet

theorem mem_foldl_insert {indices : List Nat} {set : IndexSet} {i : Nat} :
    i ∈ indices.foldl insert set ↔ i ∈ indices ∨ i ∈ set := by
  induction indices generalizing set with
  | nil => simp
  | cons j indices ih =>
    rw [List.foldl_cons, ih, mem_insert, List.mem_cons]
    tauto

@[simp] theorem mem_toList_ofList {indices : List Nat} {i : Nat} :
    i ∈ (ofList indices).toList ↔ i ∈ indices := by
  rw [← mem_def, ofList, mem_foldl_insert]
  simp

end IndexSet

/-! ### The marks of a text -/

/-- The mark that a sentinel with an index stands for. -/
def Sentinel.mark? (sentinel : Sentinel) : Option (Kind × Nat) :=
  sentinel.index?.map (sentinel.kind, ·)

/-- The marks of a text: its sentinels that have an index. -/
def Marked.marks (marked : Marked) : List (Kind × Nat) :=
  marked.sentinels.filterMap Sentinel.mark?

theorem Marked.marks_eq (marked : Marked) :
    marked.marks = marked.parts.filterMap (·.2.mark?) := by
  rw [marks, sentinels, List.filterMap_map]
  rfl

namespace Token

namespace Reader

variable {reader after : Reader} {literal : Text} {sentinel : Sentinel} {seen : List (Kind × Nat)}

theorem isSome_offset?_iff {placed : List Placed} {kind : Kind} {i : Nat} :
    (offset? placed kind i).isSome = true ↔ (kind, i) ∈ placed.map Placed.key := by
  constructor
  · intro h
    by_contra hmem
    rw [offset?_eq_none hmem] at h
    cases h
  · intro h
    obtain ⟨p, hp, hkey⟩ := List.mem_map.mp h
    obtain ⟨rfl, rfl⟩ := Prod.mk.inj hkey
    rw [offset?, Option.isSome_map, List.find?_isSome]
    exact ⟨p, hp, by simp⟩

/-- The tokens once the run of text that ends with `literal` is given out. -/
def given (reader : Reader) (literal : Text) : List Token :=
  if (reader.run ++ literal).isEmpty && !reader.afterMark then reader.tokens
  else text (reader.run ++ literal) :: reader.tokens

/-- What is read of a sentinel: its mark, if that is new, or else only text. -/
theorem next_cases (h : reader.next literal sentinel = .ok after) :
    (sentinel.mark? = none ∧
      after = ⟨reader.given literal, reader.marks, reader.run ++ literal ++ sentinel.toText,
        reader.offset + literal.byteLength + sentinel.toText.byteLength, reader.afterMark⟩) ∨
    ∃ i, sentinel.mark? = some (sentinel.kind, i) ∧
      (sentinel.kind, i) ∉ reader.marks.map Placed.key ∧
      after = ⟨mark sentinel.kind i :: reader.given literal,
        ⟨sentinel.kind, i, reader.offset + literal.byteLength⟩ :: reader.marks, [],
        reader.offset + literal.byteLength + sentinel.toText.byteLength, true⟩ := by
  unfold next at h
  dsimp only at h
  split at h
  · next hindex =>
    refine .inl ⟨by rw [Sentinel.mark?, hindex, Option.map_none], ?_⟩
    exact (Except.ok.inj h).symm
  · next i hindex =>
    split at h
    · cases h
    · next hnew =>
      refine .inr ⟨i, by rw [Sentinel.mark?, hindex, Option.map_some], ?_, (Except.ok.inj h).symm⟩
      exact fun hmem => hnew (isSome_offset?_iff.mpr hmem)

/-- A sentinel is read unless its mark has come already. -/
theorem exists_next_iff : (∃ after, reader.next literal sentinel = .ok after) ↔
    ∀ m ∈ sentinel.mark?, m ∉ reader.marks.map Placed.key := by
  unfold next Sentinel.mark?
  dsimp only
  cases sentinel.index? with
  | none => simp
  | some i =>
    simp only [Option.map_some, Option.mem_some_iff, forall_eq', ← isSome_offset?_iff]
    split
    · next hcame => simp [hcame]
    · next hnew => simp [hnew]

/-! ### Which texts are read -/

/-- What a reader keeps of the marks that have come. -/
structure Records (reader : Reader) (seen : List (Kind × Nat)) : Prop where
  tokens : Token.marks reader.tokens.reverse = seen
  keys : reader.marks.reverse.map Placed.key = seen
  nodup : seen.Nodup
  ascending : reader.marks.reverse.Pairwise fun p q => p.offset < q.offset
  below : ∀ p ∈ reader.marks, p.offset < reader.offset

theorem records_start : Records .start [] where
  tokens := rfl
  keys := rfl
  nodup := List.nodup_nil
  ascending := List.Pairwise.nil
  below := fun _ hp => by cases hp

theorem marks_given : Token.marks (reader.given literal).reverse =
    Token.marks reader.tokens.reverse := by
  unfold given
  split <;> simp

theorem Records.mem_keys_iff (h : Records reader seen) {m : Kind × Nat} :
    m ∈ reader.marks.map Placed.key ↔ m ∈ seen := by
  rw [← h.keys, List.map_reverse, List.mem_reverse]

/-- A sentinel that is read adds its mark to those that have come. -/
theorem Records.next (h : Records reader seen) (hnext : reader.next literal sentinel = .ok after) :
    Records after (seen ++ sentinel.mark?.toList) := by
  have hpos : 0 < sentinel.toText.byteLength :=
    byteLength_pos (List.length_pos_iff.mp sentinel.length_toText_pos)
  rcases next_cases hnext with ⟨hmark, rfl⟩ | ⟨i, hmark, hnew, rfl⟩
  · rw [hmark, Option.toList_none, List.append_nil]
    exact {
      tokens := marks_given.trans h.tokens
      keys := h.keys
      nodup := h.nodup
      ascending := h.ascending
      below := fun p hp => by
        have := h.below p hp
        dsimp only
        omega }
  · rw [hmark, Option.toList_some]
    exact {
      tokens := by
        rw [List.reverse_cons, marks_append, marks_given, h.tokens]
        rfl
      keys := by
        rw [List.reverse_cons, List.map_append, h.keys]
        rfl
      nodup := by
        rw [h.mem_keys_iff] at hnew
        exact List.nodup_append_comm.mp (List.nodup_cons.mpr ⟨hnew, h.nodup⟩)
      ascending := by
        rw [List.reverse_cons]
        refine List.pairwise_append.mpr ⟨h.ascending, List.pairwise_singleton _ _, ?_⟩
        intro p hp q hq
        obtain rfl := List.mem_singleton.mp hq
        have := h.below p (List.mem_reverse.mp hp)
        dsimp only
        omega
      below := fun p hp => by
        dsimp only
        rcases List.mem_cons.mp hp with rfl | hp
        · dsimp only
          omega
        · have := h.below p hp
          omega }

/-- Reads texts and sentinels one after another. -/
def nextAll (reader : Reader) (parts : List (Text × Sentinel)) : Except TokenError Reader :=
  parts.foldlM (fun reader part => reader.next part.1 part.2) reader

theorem nextAll_cons {part : Text × Sentinel} {parts : List (Text × Sentinel)} :
    reader.nextAll (part :: parts) = .ok after ↔
      ∃ mid, reader.next part.1 part.2 = .ok mid ∧ mid.nextAll parts = .ok after := by
  rw [nextAll, List.foldlM_cons]
  cases reader.next part.1 part.2 with
  | error e => simp [bind, Except.bind]
  | ok mid => simp [bind, Except.bind, nextAll]

/-- The marks of sentinels that are read are added to those that have come. -/
theorem Records.nextAll {parts : List (Text × Sentinel)} (h : Records reader seen)
    (hnext : reader.nextAll parts = .ok after) :
    Records after (seen ++ parts.filterMap (·.2.mark?)) := by
  induction parts generalizing reader seen with
  | nil =>
    obtain rfl : reader = after := Except.ok.inj hnext
    simpa using h
  | cons part parts ih =>
    obtain ⟨mid, hmid, hrest⟩ := nextAll_cons.mp hnext
    have hafter := ih (h.next hmid) hrest
    rw [List.append_assoc] at hafter
    cases hmark : part.2.mark? with
    | none => simpa [hmark] using hafter
    | some m => simpa [hmark] using hafter

/-- Sentinels are read if no mark comes twice, and only then. -/
theorem Records.exists_nextAll_iff {parts : List (Text × Sentinel)} (h : Records reader seen) :
    (∃ after, reader.nextAll parts = .ok after) ↔
      (seen ++ parts.filterMap (·.2.mark?)).Nodup := by
  refine ⟨?_, fun hnodup => ?_⟩
  · rintro ⟨after, hafter⟩
    exact (h.nextAll hafter).nodup
  induction parts generalizing reader seen with
  | nil => exact ⟨reader, rfl⟩
  | cons part parts ih =>
    have hsplit : (part :: parts).filterMap (·.2.mark?) =
        part.2.mark?.toList ++ parts.filterMap (·.2.mark?) := by
      cases hmark : part.2.mark? <;> simp [hmark]
    rw [hsplit, ← List.append_assoc] at hnodup
    obtain ⟨mid, hmid⟩ : ∃ mid, reader.next part.1 part.2 = .ok mid := by
      refine exists_next_iff.mpr fun m hm hmem => ?_
      have hfront := (List.nodup_append.mp hnodup).1
      exact (List.nodup_append.mp hfront).2.2 m (h.mem_keys_iff.mp hmem) m (by simpa using hm) rfl
    obtain ⟨after, hafter⟩ := ih (h.next hmid) hnodup
    exact ⟨after, nextAll_cons.mpr ⟨mid, hmid, hafter⟩⟩

/-- Nothing is wrong with the starts and ends that have come if they are paired, and only then. -/
theorem Records.partnerError?_iff (h : Records reader seen) :
    (∀ i ∈ reader.marks.map Placed.index, partnerError? reader.marks i = none) ↔ Paired seen := by
  have hkeys : (reader.marks.map Placed.key).Nodup := by
    have := h.nodup
    rwa [← h.keys, List.map_reverse, List.nodup_reverse] at this
  have hindex {kind : Kind} {i : Nat} (hmem : (kind, i) ∈ seen) :
      i ∈ reader.marks.map Placed.index := by
    obtain ⟨p, hp, hkey⟩ := List.mem_map.mp (h.mem_keys_iff.mpr hmem)
    exact List.mem_map.mpr ⟨p, hp, congrArg Prod.snd hkey⟩
  constructor
  · intro hnone
    -- With one of the two marks missing the other is an error.
    have hpartner {kind kind' : Kind} {i : Nat}
        (hkinds : (kind, kind') = (.start, .stop) ∨ (kind, kind') = (.stop, .start))
        (hmem : (kind, i) ∈ seen) : (kind', i) ∈ seen := by
      by_contra hother
      obtain ⟨offset, hoffset⟩ := Option.isSome_iff_exists.mp
        (isSome_offset?_iff.mpr (h.mem_keys_iff.mpr hmem))
      have hmissing := offset?_eq_none (mt h.mem_keys_iff.mp hother)
      have herror := hnone i (hindex hmem)
      rcases hkinds with heq | heq
      · obtain ⟨rfl, rfl⟩ := Prod.mk.inj heq
        rw [partnerError?, hoffset, hmissing] at herror
        cases herror
      · obtain ⟨rfl, rfl⟩ := Prod.mk.inj heq
        rw [partnerError?, hoffset, hmissing] at herror
        cases herror
    refine ⟨fun i => ⟨hpartner (.inl rfl), hpartner (.inr rfl)⟩, ?_⟩
    rw [← h.keys, List.pairwise_map]
    refine h.ascending.imp_of_mem fun {p q} hp hq hlt i hstop hstart => ?_
    have hp' := offset?_eq_some hkeys (List.mem_reverse.mp hp)
    have hq' := offset?_eq_some hkeys (List.mem_reverse.mp hq)
    obtain ⟨hpkind, hpindex⟩ := Prod.mk.inj hstop
    obtain ⟨hqkind, hqindex⟩ := Prod.mk.inj hstart
    rw [hpkind, hpindex] at hp'
    rw [hqkind, hqindex] at hq'
    have herror := hnone i (List.mem_map.mpr ⟨p, List.mem_reverse.mp hp, hpindex⟩)
    rw [partnerError?, hp', hq'] at herror
    simp [hlt] at herror
  · intro hpaired i _
    rw [← h.keys] at hpaired
    have hnodup := h.nodup
    rw [← h.keys] at hnodup
    have hnone := partnerError?_reverse_eq_none (h.ascending.imp Nat.le_of_lt) hnodup hpaired i
    rwa [List.reverse_reverse] at hnone

end Reader

variable {text : Text} {tokens : List Token} {expected : Nat}

/-- Reading a text: its sentinels one after another, and then a look at starts and ends. -/
theorem ofText_eq_ok_iff : ofText text = .ok tokens ↔ ∃ reader,
    Reader.start.nextAll (Marked.ofText text).parts = .ok reader ∧
      (∀ i ∈ reader.marks.map Placed.index, Reader.partnerError? reader.marks i = none) ∧
      tokens = reader.finish (Marked.ofText text).tail := by
  unfold ofText
  change Except.bind (Reader.start.nextAll (Marked.ofText text).parts) _ = _ ↔ _
  cases Reader.start.nextAll (Marked.ofText text).parts with
  | error e => simp [Except.bind]
  | ok reader =>
    simp only [Except.bind, Except.ok.injEq, exists_eq_left']
    cases herror : (IndexSet.ofList (reader.marks.map Placed.index)).toList.findSome?
        (Reader.partnerError? reader.marks) with
    | none =>
      rw [List.findSome?_eq_none_iff] at herror
      simp only [IndexSet.mem_toList_ofList] at herror
      simp only [pure, Except.pure, Except.ok.injEq, eq_comm (a := reader.finish _)]
      exact ⟨fun h => ⟨herror, h⟩, fun h => h.2⟩
    | some error =>
      obtain ⟨i, hi, herr⟩ := List.exists_of_findSome?_eq_some herror
      rw [IndexSet.mem_toList_ofList] at hi
      refine ⟨fun h => (by cases h), fun h => ?_⟩
      rw [h.1 i hi] at herr
      cases herr

/-- A text is read if no mark comes twice and starts and ends are paired, and only then. -/
theorem exists_ofText_iff : (∃ tokens, ofText text = .ok tokens) ↔
    (Marked.ofText text).marks.Nodup ∧ Paired (Marked.ofText text).marks := by
  simp only [ofText_eq_ok_iff, Marked.marks_eq]
  constructor
  · rintro ⟨tokens, reader, hread, hpartner, -⟩
    have hrecords := Reader.records_start.nextAll hread
    exact ⟨hrecords.nodup, hrecords.partnerError?_iff.mp hpartner⟩
  · rintro ⟨hnodup, hpaired⟩
    obtain ⟨reader, hread⟩ := Reader.records_start.exists_nextAll_iff.mpr hnodup
    have hrecords := Reader.records_start.nextAll hread
    exact ⟨_, reader, hread, hrecords.partnerError?_iff.mpr hpaired, rfl⟩

/-- The marks that are read are those of the text. -/
theorem marks_of_ofText (h : ofText text = .ok tokens) :
    marks tokens = (Marked.ofText text).marks := by
  obtain ⟨reader, hread, -, rfl⟩ := ofText_eq_ok_iff.mp h
  have hmarks := (Reader.records_start.nextAll hread).tokens
  rw [List.nil_append] at hmarks
  rw [Marked.marks_eq, ← hmarks, Reader.finish]
  split <;> simp

/-! ### Which texts pass the check -/

theorem lt_of_unknownIndex?_eq_none {offset : Nat}
    (h : unknownIndex? expected offset tokens = none) {kind : Kind} {i : Nat}
    (hmem : (kind, i) ∈ marks tokens) : i < expected := by
  induction tokens generalizing offset with
  | nil => cases hmem
  | cons token tokens ih =>
    cases token with
    | text t => exact ih h hmem
    | mark k j =>
      rw [unknownIndex?] at h
      split at h
      · next hlt =>
        rcases List.mem_cons.mp hmem with heq | hmem
        · exact (Prod.mk.inj heq).2 ▸ hlt
        · exact ih h hmem
      · cases h

theorem mem_marks_of_missing?_eq_none {index : Nat} (h : missing? tokens expected index = none)
    {i : Nat} (hle : index ≤ i) (hlt : i < expected) (kind : Kind) : (kind, i) ∈ marks tokens := by
  fun_induction missing? tokens expected index with
  | case1 index hindex found hfind => cases h
  | case2 index hindex hfind ih =>
    rcases Nat.eq_or_lt_of_le hle with rfl | hle
    · rw [List.find?_eq_none] at hfind
      have hkind := hfind kind (by cases kind <;> decide)
      rw [mem_marks]
      simpa using hkind
    · exact ih h hle
  | case3 index hge => omega

/-- The check accepts tokens whose marks all have an index below `expected`, with none of these
missing, and no others. -/
theorem checkRoundTrip_eq_ok_iff : checkRoundTrip tokens expected = .ok () ↔
    (∀ kind i, (kind, i) ∈ marks tokens → i < expected) ∧
      ∀ i < expected, ∀ kind, (kind, i) ∈ marks tokens := by
  refine ⟨fun h => ?_, fun h => checkRoundTrip_eq_ok h.1 h.2⟩
  unfold checkRoundTrip at h
  split at h
  · cases h
  · next hknown =>
    split at h
    · cases h
    · next hpresent =>
      exact ⟨fun kind i hmem => lt_of_unknownIndex?_eq_none hknown hmem,
        fun i hlt kind => mem_marks_of_missing?_eq_none hpresent (Nat.zero_le i) hlt kind⟩

/-- The marks of `expected` highlights, each whole: one start, one end and one anchor, the start
before the end; and no mark of another highlight. -/
structure Intact (expected : Nat) (marks : List (Kind × Nat)) : Prop where
  once : ∀ i < expected, ∀ kind, marks.count (kind, i) = 1
  ordered : ∀ i < expected, [(.start, i), (.stop, i)].Sublist marks
  bounded : ∀ kind i, (kind, i) ∈ marks → i < expected

/-- Two entries stand in one order only where no entry comes twice. -/
theorem not_sublist_swap {α : Type} {a b : α} {entries : List α} (hnodup : entries.Nodup)
    (h : [a, b].Sublist entries) : ¬ [b, a].Sublist entries := by
  intro hswap
  induction entries with
  | nil => cases h
  | cons c entries ih =>
    obtain ⟨hc, hnodup⟩ := List.nodup_cons.mp hnodup
    rcases List.cons_sublist_cons'.mp h with htail | ⟨rfl, htail⟩
    · rcases List.cons_sublist_cons'.mp hswap with hswap | ⟨rfl, -⟩
      · exact ih hnodup htail hswap
      · exact hc (htail.subset (by simp))
    · rcases List.cons_sublist_cons'.mp hswap with hswap | ⟨rfl, -⟩
      · exact hc (hswap.subset (by simp))
      · exact hc (htail.subset (by simp))

/-- Marks are those of whole highlights if none comes twice, starts and ends are paired, and their
indices are those below `expected`. -/
theorem intact_iff {marks : List (Kind × Nat)} : Intact expected marks ↔
    (marks.Nodup ∧ Paired marks) ∧ (∀ kind i, (kind, i) ∈ marks → i < expected) ∧
      ∀ i < expected, ∀ kind, (kind, i) ∈ marks := by
  constructor
  · rintro ⟨honce, hordered, hbounded⟩
    have hmem (i : Nat) (hi : i < expected) (kind : Kind) : (kind, i) ∈ marks :=
      List.count_pos_iff.mp (by rw [honce i hi kind]; exact Nat.one_pos)
    have hnodup : marks.Nodup := by
      rw [List.nodup_iff_count_le_one]
      rintro ⟨kind, i⟩
      by_cases hm : (kind, i) ∈ marks
      · exact (honce i (hbounded kind i hm) kind).le
      · rw [List.count_eq_zero_of_not_mem hm]
        exact Nat.zero_le 1
    refine ⟨⟨hnodup, fun i => ?_, ?_⟩, hbounded, hmem⟩
    · exact ⟨fun h => hmem i (hbounded _ i h) .stop, fun h => hmem i (hbounded _ i h) .start⟩
    · rw [List.pairwise_iff_forall_sublist]
      rintro m n hsub i rfl rfl
      have hi : i < expected := hbounded .stop i (hsub.subset (by simp))
      exact not_sublist_swap hnodup (hordered i hi) hsub
  · rintro ⟨⟨hnodup, hpaired⟩, hbounded, hmem⟩
    refine ⟨fun i hi kind => List.count_eq_one_of_mem hnodup (hmem i hi kind), fun i hi => ?_,
      hbounded⟩
    obtain ⟨before, between, after, rfl⟩ := hpaired.split (hmem i hi .stop)
    rw [List.append_assoc]
    refine List.sublist_append_of_sublist_right (.cons_cons _ ?_)
    exact List.sublist_append_of_sublist_right (.cons_cons _ (List.nil_sublist after))

/-- **The round trip accepts exactly the intact texts.**  A text is read and passes the check for
`expected` highlights if and only if its marks are those of whole highlights. -/
theorem accepts_iff_intact (text : Text) (expected : Nat) :
    (∃ tokens, ofText text = .ok tokens ∧ checkRoundTrip tokens expected = .ok ()) ↔
      Intact expected (Marked.ofText text).marks := by
  rw [intact_iff, ← exists_ofText_iff]
  constructor
  · rintro ⟨tokens, hread, hcheck⟩
    rw [checkRoundTrip_eq_ok_iff, marks_of_ofText hread] at hcheck
    exact ⟨⟨tokens, hread⟩, hcheck⟩
  · rintro ⟨⟨tokens, hread⟩, hmarks⟩
    rw [← marks_of_ofText hread, ← checkRoundTrip_eq_ok_iff] at hmarks
    exact ⟨tokens, hread, hmarks⟩

/-! ### What is read of the literal text -/

/-- One of two tokens is a mark. -/
def Parted (t u : Token) : Prop :=
  t.mark?.isSome = true ∨ u.mark?.isSome = true

namespace Reader

variable {reader after : Reader} {literal tail read : Text} {sentinel : Sentinel}

theorem literals_given : literals (reader.given literal).reverse =
    literals reader.tokens.reverse ++ (reader.run ++ literal) := by
  unfold given
  split
  · next h =>
    simp only [Bool.and_eq_true, List.isEmpty_iff] at h
    rw [h.1, List.append_nil]
  · simp

theorem literals_finish : literals (reader.finish tail) =
    literals reader.tokens.reverse ++ (reader.run ++ tail) := by
  unfold finish
  dsimp only
  split
  · next h => rw [List.isEmpty_iff.mp h, List.append_nil]
  · simp

/-- What a reader keeps of the text if every sentinel so far had an index: nothing waits in the run,
and the last token is a mark. -/
structure Tidy (reader : Reader) (read : Text) : Prop where
  run : reader.run = []
  literals : Token.literals reader.tokens.reverse = read
  parted : reader.tokens.IsChain Parted
  last : ∀ token ∈ reader.tokens.head?, token.mark?.isSome = true

theorem tidy_start : Tidy .start [] where
  run := rfl
  literals := rfl
  parted := .nil
  last := fun _ h => by cases h

/-- A literal may follow the last token. -/
theorem Tidy.parted_text (h : Tidy reader read) (literal : Text) :
    (.text literal :: reader.tokens : List Token).IsChain Parted :=
  List.isChain_cons.mpr ⟨fun token htoken => .inr (h.last token htoken), h.parted⟩

theorem Tidy.next (h : Tidy reader read) (hmark : sentinel.mark?.isSome = true)
    (hnext : reader.next literal sentinel = .ok after) : Tidy after (read ++ literal) := by
  rcases next_cases hnext with ⟨hnone, -⟩ | ⟨i, -, -, rfl⟩
  · rw [hnone] at hmark
    cases hmark
  · have hgiven : (reader.given literal).IsChain Parted := by
      unfold given
      split
      · exact h.parted
      · exact h.parted_text _
    exact {
      run := rfl
      literals := by
        rw [List.reverse_cons, literals_append, literals_given, h.literals, h.run]
        simp
      parted := List.isChain_cons.mpr ⟨fun _ _ => .inl rfl, hgiven⟩
      last := fun token htoken => Option.mem_some_iff.mp htoken ▸ rfl }

theorem Tidy.nextAll {parts : List (Text × Sentinel)} (h : Tidy reader read)
    (hmarks : ∀ part ∈ parts, part.2.mark?.isSome = true)
    (hnext : reader.nextAll parts = .ok after) : Tidy after (read ++ parts.flatMap Prod.fst) := by
  induction parts generalizing reader read with
  | nil =>
    obtain rfl : reader = after := Except.ok.inj hnext
    simpa using h
  | cons part parts ih =>
    obtain ⟨mid, hmid, hrest⟩ := nextAll_cons.mp hnext
    obtain ⟨hmark, hmarks⟩ := List.forall_mem_cons.mp hmarks
    rw [List.flatMap_cons, ← List.append_assoc]
    exact ih (h.next hmark hmid) hmarks hrest

theorem Tidy.parted_finish (h : Tidy reader read) : (reader.finish tail).IsChain Parted := by
  unfold finish
  dsimp only
  rw [List.isChain_reverse]
  refine List.IsChain.imp (fun _ _ => Or.symm) ?_
  split
  · exact h.parted
  · exact h.parted_text _

/-- The number of characters that a reader has given out or keeps. -/
def held (reader : Reader) : Nat :=
  (literals reader.tokens.reverse).length + reader.run.length

/-- What a reader has grows by the text, and by more if the sentinel has no index. -/
theorem held_next (hnext : reader.next literal sentinel = .ok after) :
    reader.held + literal.length + (if sentinel.mark?.isNone then 1 else 0) ≤ after.held := by
  have hpos := sentinel.length_toText_pos
  unfold held
  rcases next_cases hnext with ⟨hnone, rfl⟩ | ⟨i, hsome, -, rfl⟩
  · rw [hnone, literals_given]
    simp only [List.length_append, Option.isNone_none, if_true]
    omega
  · rw [hsome, List.reverse_cons, literals_append, literals_given]
    simp only [List.length_append, Option.isNone_some, Bool.false_eq_true, if_false, List.length_nil]
    omega

theorem held_nextAll {parts : List (Text × Sentinel)} (hnext : reader.nextAll parts = .ok after) :
    reader.held + (parts.flatMap Prod.fst).length + parts.countP (·.2.mark?.isNone) ≤
      after.held := by
  induction parts generalizing reader with
  | nil =>
    obtain rfl : reader = after := Except.ok.inj hnext
    simp
  | cons part parts ih =>
    obtain ⟨mid, hmid, hrest⟩ := nextAll_cons.mp hnext
    have hstep := held_next hmid
    have htail := ih hrest
    rw [List.flatMap_cons, List.length_append, List.countP_cons]
    omega

end Reader

/-- The tokens are those of a text without loss and without repetition: their literals are the text
without its sentinels, the regions made of them hold the same text, and no two literals stand side
by side. -/
structure Exact (text : Text) (tokens : List Token) : Prop where
  literals : Token.literals tokens = stripSentinels text
  regions : (Region.ofTokens tokens).flatMap Region.text = stripSentinels text
  parted : tokens.IsChain Parted

/-- **Reading loses and repeats no text where every sentinel has an index**, and nowhere else. -/
theorem exact_iff (hread : ofText text = .ok tokens) :
    Exact text tokens ↔ ∀ sentinel ∈ (Marked.ofText text).sentinels,
      sentinel.index?.isSome = true := by
  obtain ⟨reader, hparts, -, rfl⟩ := ofText_eq_ok_iff.mp hread
  have hmark (sentinel : Sentinel) : sentinel.mark?.isSome = sentinel.index?.isSome :=
    Option.isSome_map
  constructor
  · rintro ⟨hliterals, -, -⟩ sentinel hmem
    obtain ⟨part, hpart, rfl⟩ := List.mem_map.mp hmem
    -- The literals are longer than the text by at least the number of sentinels without an index.
    have hheld := Reader.held_nextAll hparts
    have hlength := congrArg List.length hliterals
    rw [Reader.literals_finish, stripSentinels, Marked.literals] at hlength
    simp only [Reader.held, Reader.start, List.length_append, List.reverse_nil, literals_nil,
      List.length_nil] at hheld hlength
    have hnone : (Marked.ofText text).parts.countP (·.2.mark?.isNone) = 0 := by omega
    have hindex := List.countP_eq_zero.mp hnone part hpart
    rw [← hmark]
    simpa [Option.isSome_iff_ne_none] using hindex
  · intro hindexed
    have htidy := Reader.tidy_start.nextAll (fun part hpart => by
      rw [hmark]
      exact hindexed part.2 (List.mem_map_of_mem hpart)) hparts
    have hliterals : literals (reader.finish (Marked.ofText text).tail) = stripSentinels text := by
      rw [Reader.literals_finish, htidy.literals, htidy.run, stripSentinels, Marked.literals]
      simp
    exact ⟨hliterals, (Region.texts_ofTokensFrom .empty [] _).trans hliterals, htidy.parted_finish⟩

/-- A highlight with its anchor is read without loss. -/
theorem exact_highlight :
    let text := "x ANNMARKER1ENDMARKERHLSTART1ENDHLyHLEND1ENDHL w".toList
    let tokens := [.text "x ".toList, .mark .anchor 1, .text [], .mark .start 1, .text ['y'],
      .mark .stop 1, .text " w".toList]
    ofText text = .ok tokens ∧ Exact text tokens := by
  intro text tokens
  have hread : ofText text = .ok tokens := by decide +kernel
  exact ⟨hread, (exact_iff hread).mpr (by decide +kernel)⟩

/-- A sentinel with a digit of another script repeats the text before it. -/
theorem not_exact : ¬ ∀ text tokens, ofText text = .ok tokens → Exact text tokens := by
  intro h
  have hread : ofText "aHLSTART\u0663ENDHLb".toList =
      .ok [.text ['a'], .text "aHLSTART\u0663ENDHLb".toList] := by decide +kernel
  have hliterals := (h _ _ hread).literals
  revert hliterals
  decide +kernel

end Token

end Marginalia
