import Marginalia.Proofs.Anchor
import Mathlib.Data.List.DropRight

/-! # The region of each literal

Regions are built from any tokens, also from such as no converted text gives: a highlight may start
twice, end without a start, or have its anchor repeated.  What the region of a literal holds is
decided by the tokens before the literal (`Region.Follows`): a highlight is open if the last of its
starts and ends is a start, and the anchors are those that came since the literal before.

Both are read off the tokens one token at a time (`leavesOpen_append_singleton`,
`waiting_append_singleton`), which is how the scan keeps them (`exists_regions_from`).
-/
namespace Marginalia

open Sentinel

namespace Token

/-- Whether the token is a literal text. -/
def isText : Token → Bool
  | text _ => true
  | mark _ _ => false

/-- Of the starts and ends of the highlight among the tokens, the last is a start. -/
def LeavesOpen (tokens : List Token) (i : Nat) : Prop :=
  ∃ front back, tokens = front ++ mark .start i :: back ∧
    mark .start i ∉ back ∧ mark .stop i ∉ back

/-- The anchors behind the last literal, in order. -/
def waiting (tokens : List Token) : List Nat :=
  anchors (marks (tokens.rtakeWhile fun token => !token.isText))

theorem not_leavesOpen_nil (i : Nat) : ¬ LeavesOpen [] i := by
  rintro ⟨front, back, h, -⟩
  exact List.append_ne_nil_of_right_ne_nil front (List.cons_ne_nil _ back) h.symm

/-- One token more opens its highlight, ends it, or leaves everything as it was. -/
theorem leavesOpen_append_singleton {tokens : List Token} {token : Token} {i : Nat} :
    LeavesOpen (tokens ++ [token]) i ↔
      token = mark .start i ∨ token ≠ mark .stop i ∧ LeavesOpen tokens i := by
  constructor
  · rintro ⟨front, back, h, hstart, hstop⟩
    rcases List.eq_nil_or_concat' back with rfl | ⟨back, last, rfl⟩
    · obtain ⟨-, heq⟩ := List.append_inj' h rfl
      exact .inl (List.singleton_injective heq)
    · have hsplit : tokens ++ [token] = (front ++ mark .start i :: back) ++ [last] := by
        rw [h, List.append_assoc, List.cons_append]
      obtain ⟨rfl, heq⟩ := List.append_inj' hsplit rfl
      obtain rfl : token = last := List.singleton_injective heq
      refine .inr ⟨?_, front, back, rfl, ?_, ?_⟩
      · rintro rfl
        exact hstop (List.mem_append_right back (List.mem_singleton_self _))
      · exact fun hmem => hstart (List.mem_append_left _ hmem)
      · exact fun hmem => hstop (List.mem_append_left _ hmem)
  · by_cases hopens : token = mark .start i
    · rintro -
      exact ⟨tokens, [], by rw [hopens], List.not_mem_nil, List.not_mem_nil⟩
    · rintro (h | ⟨hends, front, back, rfl, hstart, hstop⟩)
      · exact absurd h hopens
      · refine ⟨front, back ++ [token], by simp, ?_, ?_⟩
        · simpa [hstart] using Ne.symm hopens
        · simpa [hstop] using Ne.symm hends

/-- A literal takes the anchors that wait, and an anchor waits behind those before it. -/
theorem waiting_append_singleton (tokens : List Token) (token : Token) :
    waiting (tokens ++ [token]) =
      if token.isText then [] else waiting tokens ++ anchors (marks [token]) := by
  unfold waiting
  cases token with
  | text literal =>
    rw [List.rtakeWhile_concat_neg _ _ _ (by simp [isText])]
    rfl
  | mark kind i =>
    rw [List.rtakeWhile_concat_pos _ _ _ (by simp [isText]), marks_append, anchors,
      List.filterMap_append]
    rfl

/-! ### Literals and the tokens before them -/

theorem length_cutsFrom (before tokens : List Token) :
    (cutsFrom before tokens).length = tokens.countP isText := by
  induction tokens generalizing before with
  | nil => rfl
  | cons token tokens ih =>
    cases token with
    | text t => rw [cutsFrom, List.length_cons, ih, List.countP_cons_of_pos rfl]
    | mark kind i => rw [cutsFrom, ih, List.countP_cons_of_neg (by simp [isText])]

/-- The literals are numbered in order. -/
theorem getElem?_cutsFrom (before front : List Token) (literal : Text) (back : List Token) :
    (cutsFrom before (front ++ text literal :: back))[front.countP isText]? =
      some ⟨before ++ front, literal, back⟩ := by
  induction front generalizing before with
  | nil => simp [cutsFrom]
  | cons token front ih =>
    rw [List.cons_append, List.append_cons before]
    cases token with
    | text t => rw [List.countP_cons_of_pos rfl, cutsFrom, List.getElem?_cons_succ, ih]
    | mark kind i => rw [List.countP_cons_of_neg (by simp [isText]), cutsFrom, ih]

end Token

namespace Region

/-- The region holds the literal behind the tokens: the highlights that they leave open and the
anchors that wait there. -/
structure Follows (before : List Token) (literal : Text) (region : Region) : Prop where
  text : region.text = literal
  active : ∀ i, i ∈ region.active ↔ Token.LeavesOpen before i
  anchors : region.anchors = Token.waiting before

variable {before : List Token} {active : IndexSet} {waiting : List Nat}

/-- What the scan holds behind some tokens, it holds again behind one token more. -/
theorem Follows.mark (h : Follows before [] ⟨[], active, waiting⟩) (kind : Kind) (i : Nat) :
    Follows (before ++ [.mark kind i]) [] (match kind with
      | .start => ⟨[], active.insert i, waiting⟩
      | .stop => ⟨[], active.erase i, waiting⟩
      | .anchor => ⟨[], active, waiting ++ [i]⟩) := by
  have hwaiting : Token.waiting (before ++ [.mark kind i]) =
      waiting ++ Sentinel.anchors [(kind, i)] := by
    rw [Token.waiting_append_singleton, if_neg (by simp [Token.isText]), ← h.anchors]
    rfl
  have hopen (j : Nat) := h.active j
  cases kind with
  | start =>
    refine ⟨rfl, fun j => ?_, ?_⟩
    · rw [IndexSet.mem_insert, hopen, Token.leavesOpen_append_singleton]
      simp [eq_comm]
    · rw [hwaiting]
      exact (List.append_nil _).symm
  | stop =>
    refine ⟨rfl, fun j => ?_, ?_⟩
    · rw [IndexSet.mem_erase, hopen, Token.leavesOpen_append_singleton]
      simp [eq_comm]
    · rw [hwaiting]
      exact (List.append_nil _).symm
  | anchor =>
    refine ⟨rfl, fun j => ?_, hwaiting.symm⟩
    rw [hopen, Token.leavesOpen_append_singleton]
    simp

/-- Behind a literal no anchor waits, and what is open stays open. -/
theorem Follows.literal (h : Follows before [] ⟨[], active, waiting⟩) (literal : Text) :
    Follows (before ++ [.text literal]) [] ⟨[], active, []⟩ := by
  refine ⟨rfl, fun j => ?_, ?_⟩
  · rw [h.active, Token.leavesOpen_append_singleton]
    simp
  · rw [Token.waiting_append_singleton]
    rfl

/-- The regions of tokens behind others: one for each literal, and one more for anchors that still
wait at the end. -/
theorem exists_regions_from (h : Follows before [] ⟨[], active, waiting⟩) (tokens : List Token) :
    ∃ regions trailing, ofTokensFrom active waiting tokens = regions ++ trailing ∧
      List.Forall₂ (fun cut region => Follows cut.before cut.literal region)
        (Token.cutsFrom before tokens) regions ∧
      (Token.waiting (before ++ tokens) = [] ∧ trailing = [] ∨
        Token.waiting (before ++ tokens) ≠ [] ∧
          ∃ region, trailing = [region] ∧ Follows (before ++ tokens) [] region) := by
  induction tokens generalizing before active waiting with
  | nil =>
    rw [List.append_nil, ← h.anchors, ofTokensFrom]
    refine ⟨[], _, rfl, .nil, ?_⟩
    cases waiting with
    | nil => exact .inl ⟨rfl, rfl⟩
    | cons i waiting => exact .inr ⟨List.cons_ne_nil _ _, _, rfl, h⟩
  | cons token tokens ih =>
    rw [List.append_cons]
    cases token with
    | text literal =>
      obtain ⟨regions, trailing, heq, hregions, htrailing⟩ := ih (h.literal literal)
      refine ⟨⟨literal, active, waiting⟩ :: regions, trailing, ?_, .cons ?_ hregions, htrailing⟩
      · rw [ofTokensFrom, heq, List.cons_append]
      · exact ⟨rfl, h.active, h.anchors⟩
    | mark kind i =>
      have hnext := h.mark kind i
      cases kind with
      | start => exact ih hnext
      | stop => exact ih hnext
      | anchor => exact ih hnext

/-- **Regions are exact.**  Whatever the tokens are, the literals have a region each, in order: a
highlight is open over a literal if its last start or end before it is a start, and the anchors of
the region are those since the literal before, in order.  If anchors come behind the last literal,
one region without text follows, which holds them and the highlights that are open at the end;
otherwise no region follows.  So the regions hold the anchors of the tokens in their order. -/
theorem ofTokens_exact (tokens : List Token) :
    (ofTokens tokens).length =
        tokens.countP Token.isText + (if Token.waiting tokens = [] then 0 else 1) ∧
      (∀ before literal after, tokens = before ++ .text literal :: after →
        ∃ region, (ofTokens tokens)[before.countP Token.isText]? = some region ∧
          Follows before literal region) ∧
      (Token.waiting tokens ≠ [] →
        ∃ region, (ofTokens tokens)[tokens.countP Token.isText]? = some region ∧
          Follows tokens [] region) ∧
      (ofTokens tokens).flatMap Region.anchors = Sentinel.anchors (Token.marks tokens) := by
  have hstart : Follows [] [] ⟨[], .empty, []⟩ :=
    ⟨rfl, fun i => iff_of_false (IndexSet.not_mem_empty i) (Token.not_leavesOpen_nil i), rfl⟩
  obtain ⟨regions, trailing, heq, hregions, htrailing⟩ := exists_regions_from hstart tokens
  have hlength : regions.length = tokens.countP Token.isText := by
    rw [← hregions.length_eq, Token.length_cutsFrom]
  rw [List.nil_append] at htrailing
  refine ⟨?_, ?_, ?_, flatMap_anchors tokens⟩
  · rw [ofTokens, heq, List.length_append, hlength]
    rcases htrailing with ⟨hnone, rfl⟩ | ⟨hsome, region, rfl, -⟩
    · rw [if_pos hnone, List.length_nil]
    · rw [if_neg hsome, List.length_singleton]
  · rintro before literal after rfl
    have hcut := Token.getElem?_cutsFrom [] before literal after
    obtain ⟨hlt, hcut⟩ := List.getElem?_eq_some_iff.mp hcut
    have hlt' : before.countP Token.isText < regions.length := hregions.length_eq ▸ hlt
    refine ⟨regions[before.countP Token.isText], ?_, ?_⟩
    · rw [ofTokens, heq, List.getElem?_append_left hlt', List.getElem?_eq_getElem hlt']
    · have hfollows := hregions.get hlt hlt'
      simp only [List.get_eq_getElem, hcut] at hfollows
      exact hfollows
  · intro hsome
    obtain ⟨-, region, rfl, hregion⟩ := htrailing.resolve_left fun hnone => hsome hnone.1
    refine ⟨region, ?_, hregion⟩
    rw [ofTokens, heq, ← hlength, List.getElem?_concat_length]

/-- A highlight that starts twice and ends once, an end without a start, and an anchor that comes
twice. -/
example :
    (ofTokens [.mark .stop 1, .mark .start 0, .mark .start 0, .text ['a'], .mark .anchor 2,
      .mark .stop 0, .mark .anchor 2, .text [], .mark .start 1, .mark .anchor 0]).map
        (fun region => (region.text, region.active.toList, region.anchors)) =
      [(['a'], [0], []), ([], [], [2, 2]), ([], [1], [0])] := by
  decide

end Region

end Marginalia
