import Marginalia.Proofs.Token
import Marginalia.Region

/-! # The region over a range of bytes

Regions hold the literal texts of tokens in order, so a range of bytes that is not empty lies in
one region at most (`Region.Covers.unique`), and the region of a literal is the one that covers
it (`ofTokens_covers`).  Its highlights are those whose start came before the literal and whose
end did not: the set of open highlights is the same for every order of starts and ends that puts
each start before its end (`mem_openAfter`).
-/
namespace Marginalia

open Text Sentinel

namespace IndexSet

/-- The highlights that are open after marks. -/
def openAfter (active : IndexSet) : List (Kind × Nat) → IndexSet
  | [] => active
  | (.start, i) :: marks => openAfter (active.insert i) marks
  | (.stop, i) :: marks => openAfter (active.erase i) marks
  | (.anchor, _) :: marks => openAfter active marks

theorem openAfter_append (active : IndexSet) (before after : List (Kind × Nat)) :
    openAfter active (before ++ after) = openAfter (openAfter active before) after := by
  induction before generalizing active with
  | nil => rfl
  | cons mark before ih =>
    obtain ⟨kind, i⟩ := mark
    cases kind <;> exact ih _

/-- What ends nowhere stays open. -/
theorem mem_openAfter_of_not_stop {active : IndexSet} {marks : List (Kind × Nat)} {i : Nat}
    (h : (.stop, i) ∉ marks) : i ∈ openAfter active marks ↔ i ∈ active ∨ (.start, i) ∈ marks := by
  induction marks generalizing active with
  | nil => simp [openAfter]
  | cons mark marks ih =>
    obtain ⟨kind, j⟩ := mark
    have hrest : (.stop, i) ∉ marks := fun hm => h (List.mem_cons_of_mem _ hm)
    cases kind with
    | start =>
      rw [openAfter, ih hrest, mem_insert]
      simp only [List.mem_cons, Prod.mk.injEq, true_and]
      rw [or_assoc, or_left_comm]
    | stop =>
      have hne : i ≠ j := fun heq => h (by simp [heq])
      rw [openAfter, ih hrest, mem_erase]
      simp [hne]
    | anchor =>
      rw [openAfter, ih hrest]
      simp

/-- What starts nowhere is open only if it was and does not end. -/
theorem mem_openAfter_of_not_start {active : IndexSet} {marks : List (Kind × Nat)} {i : Nat}
    (h : (.start, i) ∉ marks) : i ∈ openAfter active marks ↔ i ∈ active ∧ (.stop, i) ∉ marks := by
  induction marks generalizing active with
  | nil => simp [openAfter]
  | cons mark marks ih =>
    obtain ⟨kind, j⟩ := mark
    have hrest : (.start, i) ∉ marks := fun hm => h (List.mem_cons_of_mem _ hm)
    cases kind with
    | start =>
      have hne : i ≠ j := fun heq => h (by simp [heq])
      rw [openAfter, ih hrest, mem_insert]
      simp [hne]
    | stop =>
      rw [openAfter, ih hrest, mem_erase]
      simp only [List.mem_cons, Prod.mk.injEq, true_and, not_or]
      tauto
    | anchor =>
      rw [openAfter, ih hrest]
      simp

/-- At any place among marks that are paired, the open highlights are those that have started
and not ended. -/
theorem mem_openAfter {before after : List (Kind × Nat)}
    (hpaired : Token.Paired (before ++ after)) (i : Nat) :
    i ∈ openAfter .empty before ↔ (.start, i) ∈ before ∧ (.stop, i) ∉ before := by
  by_cases hstop : (.stop, i) ∈ before
  · simp only [hstop, not_true_eq_false, and_false, iff_false]
    obtain ⟨front, back, rfl⟩ := List.append_of_mem hstop
    have hstart : (.start, i) ∉ back := by
      have hordered := (List.pairwise_append.mp hpaired.ordered).1
      have hback := (List.pairwise_cons.mp (List.pairwise_append.mp hordered).2.1).1
      exact fun hmem => hback _ hmem i rfl rfl
    rw [openAfter_append, openAfter, mem_openAfter_of_not_start hstart, mem_erase]
    simp
  · rw [mem_openAfter_of_not_stop hstop]
    simp [hstop]

end IndexSet

namespace Region

/-- The region of the given number holds the bytes from `start` to `stop` of the literal text. -/
def Covers (regions : List Region) (number start stop : Nat) (region : Region) : Prop :=
  regions[number]? = some region ∧
    byteLength ((regions.take number).flatMap text) ≤ start ∧
    stop ≤ byteLength ((regions.take number).flatMap text) + region.text.byteLength

/-- The bytes before a region and its own lie before a later region. -/
theorem byteLength_take_le {regions : List Region} {j k : Nat} {region : Region}
    (hregion : regions[j]? = some region) (hlt : j < k) :
    byteLength ((regions.take j).flatMap text) + region.text.byteLength ≤
      byteLength ((regions.take k).flatMap text) := by
  have hsplit : regions.take (j + 1) = regions.take j ++ [region] := by
    rw [List.take_add_one, hregion]
    rfl
  obtain ⟨rest, hrest⟩ : regions.take (j + 1) <+: regions.take k :=
    List.take_prefix_take_left (by omega)
  rw [← hrest, hsplit]
  simp

/-- A range of bytes that is not empty lies in one region at most. -/
theorem Covers.unique {regions : List Region} {j k start stop : Nat} {r s : Region}
    (hne : start < stop) (hj : Covers regions j start stop r) (hk : Covers regions k start stop s) :
    j = k := by
  obtain ⟨hr, hr₁, hr₂⟩ := hj
  obtain ⟨hs, hs₁, hs₂⟩ := hk
  rcases Nat.lt_trichotomy j k with h | h | h
  · have := byteLength_take_le hr h
    omega
  · exact h
  · have := byteLength_take_le hs h
    omega

/-- The texts of regions are the literals of the tokens. -/
theorem texts_ofTokensFrom (active : IndexSet) (anchors : List Nat) (tokens : List Token) :
    (ofTokensFrom active anchors tokens).flatMap text = Token.literals tokens := by
  induction tokens generalizing active anchors with
  | nil =>
    unfold ofTokensFrom
    split <;> rfl
  | cons token tokens ih =>
    cases token with
    | text literal => rw [ofTokensFrom, List.flatMap_cons, ih, Token.literals_text]
    | mark kind index => cases kind <;> exact ih _ _

/-- The regions of tokens that have a literal among them. -/
theorem ofTokensFrom_append_text (active : IndexSet) (anchors : List Nat) (front : List Token)
    (t : Text) (back : List Token) :
    ∃ before waiting after, ofTokensFrom active anchors (front ++ .text t :: back) =
        before ++ ⟨t, active.openAfter (Token.marks front), waiting⟩ :: after ∧
      before.flatMap text = Token.literals front := by
  induction front generalizing active anchors with
  | nil => exact ⟨[], anchors, ofTokensFrom active [] back, rfl, rfl⟩
  | cons token front ih =>
    cases token with
    | text u =>
      obtain ⟨before, waiting, after, h, hb⟩ := ih active []
      refine ⟨⟨u, active, anchors⟩ :: before, waiting, after, ?_, ?_⟩
      · rw [List.cons_append, ofTokensFrom, h]
        rfl
      · rw [List.flatMap_cons, hb, Token.literals_text]
    | mark kind i =>
      cases kind with
      | start => exact ih (active.insert i) anchors
      | stop => exact ih (active.erase i) anchors
      | anchor => exact ih active (anchors ++ [i])

/-- The region of a literal covers every part of it. -/
theorem ofTokens_covers (front : List Token) (left t right : Text) (back : List Token) :
    ∃ number region,
      Covers (ofTokens (front ++ .text (left ++ t ++ right) :: back)) number
        (Token.literals front ++ left).byteLength
        ((Token.literals front ++ left).byteLength + t.byteLength) region ∧
      region.active = IndexSet.empty.openAfter (Token.marks front) := by
  obtain ⟨before, waiting, after, h, hb⟩ :=
    ofTokensFrom_append_text .empty [] front (left ++ t ++ right) back
  refine ⟨before.length, ⟨left ++ t ++ right, _, waiting⟩, ⟨?_, ?_, ?_⟩, rfl⟩
  · rw [ofTokens, h]
    simp
  · rw [ofTokens, h, List.take_left, hb, byteLength_append]
    omega
  · rw [ofTokens, h, List.take_left, hb]
    simp only [byteLength_append]
    omega

end Region

end Marginalia
