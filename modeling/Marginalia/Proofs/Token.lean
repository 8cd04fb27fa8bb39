import Marginalia.Proofs.Sentinel
import Marginalia.Token
import Mathlib.Data.List.Nodup

/-! # Tokens of a text with sentinels

A text that was put together from literal pieces and sentinels is itself given as a list of
tokens: `write` says what each contributes.  Reading it back gives these tokens again, only that
the pieces between two marks become one literal, which may be empty (`weave`).  This holds when
the pieces together are clean, no mark comes twice, and each start comes before its end
(`ofText_write`).
-/
namespace Marginalia

open Text Sentinel

namespace Token

/-- What a token contributes to a text. -/
def write : Token → Text
  | text literal => literal
  | mark kind index => (ofIndex kind index).toText

/-- The literal text of tokens. -/
def literals (tokens : List Token) : Text :=
  tokens.flatMap literal

@[simp] theorem literals_nil : literals [] = [] := rfl

@[simp] theorem literals_text (t : Text) (tokens : List Token) :
    literals (text t :: tokens) = t ++ literals tokens := rfl

@[simp] theorem literals_mark (kind : Kind) (i : Nat) (tokens : List Token) :
    literals (mark kind i :: tokens) = literals tokens := rfl

@[simp] theorem literals_append (ts us : List Token) :
    literals (ts ++ us) = literals ts ++ literals us := by
  simp [literals]

/-- The mark that a token is, if it is one. -/
def mark? : Token → Option (Kind × Nat)
  | text _ => none
  | mark kind index => some (kind, index)

/-- The marks of tokens in order. -/
def marks (tokens : List Token) : List (Kind × Nat) :=
  tokens.filterMap mark?

@[simp] theorem marks_nil : marks [] = [] := rfl

@[simp] theorem marks_text (t : Text) (tokens : List Token) :
    marks (text t :: tokens) = marks tokens := rfl

@[simp] theorem marks_mark (kind : Kind) (i : Nat) (tokens : List Token) :
    marks (mark kind i :: tokens) = (kind, i) :: marks tokens := rfl

@[simp] theorem marks_append (ts us : List Token) : marks (ts ++ us) = marks ts ++ marks us := by
  simp [marks]

theorem mem_marks {tokens : List Token} {kind : Kind} {i : Nat} :
    (kind, i) ∈ marks tokens ↔ mark kind i ∈ tokens := by
  induction tokens with
  | nil => simp
  | cons token tokens ih => cases token <;> simp [ih]

/-- A mark that comes once cuts the tokens in one way only. -/
theorem append_mark_inj {front back front' back' : List Token} {kind : Kind} {i : Nat}
    (hnodup : (marks (front ++ mark kind i :: back)).Nodup)
    (h : front ++ mark kind i :: back = front' ++ mark kind i :: back') : back = back' := by
  rw [marks_append, marks_mark, List.nodup_middle, List.nodup_cons] at hnodup
  rcases List.append_eq_append_iff.mp h with ⟨between, rfl, hback⟩ | ⟨between, rfl, hback⟩
  · cases between with
    | nil => exact (List.cons.inj hback).2
    | cons token between =>
      obtain ⟨rfl, rfl⟩ := List.cons.inj hback
      exact absurd (by simp) hnodup.1
  · cases between with
    | nil => exact (List.cons.inj hback).2.symm
    | cons token between =>
      obtain ⟨rfl, -⟩ := List.cons.inj hback
      exact absurd (by simp) hnodup.1

/-- The tokens with the pieces between two marks joined: `front` is the literal under way, and
an empty literal counts only between two marks. -/
def weave (afterMark : Bool) (front : Text) : List Token → List Token
  | [] => if front.isEmpty then [] else [text front]
  | text t :: tokens => weave afterMark (front ++ t) tokens
  | mark kind index :: tokens =>
    (if front.isEmpty && !afterMark then [] else [text front]) ++
      mark kind index :: weave true [] tokens

theorem literals_weave (afterMark : Bool) (front : Text) (tokens : List Token) :
    literals (weave afterMark front tokens) = front ++ literals tokens := by
  have hempty (b : Bool) : literals (if front.isEmpty && b then [] else [text front]) = front := by
    split
    · next h => simp at h; simp [h.1]
    · simp
  induction tokens generalizing afterMark front with
  | nil => simpa [weave] using hempty true
  | cons token tokens ih =>
    cases token with
    | text t =>
      rw [weave, ih, literals_text, List.append_assoc]
      intro b
      split
      · next h => simp at h; simp [h.1]
      · simp
    | mark kind i =>
      rw [weave, literals_append, hempty, literals_mark, ih, literals_mark, List.nil_append]
      intro b
      cases b <;> simp

theorem marks_weave (afterMark : Bool) (front : Text) (tokens : List Token) :
    marks (weave afterMark front tokens) = marks tokens := by
  induction tokens generalizing afterMark front with
  | nil => rw [weave]; split <;> simp
  | cons token tokens ih =>
    cases token with
    | text t => rw [weave, ih, marks_text]
    | mark kind i => rw [weave, marks_append, marks_mark, ih]; split <;> simp

/-- A mark of the pieces is a mark of the woven tokens, and the marks before it and the tokens
after it are those of the pieces. -/
theorem weave_mark (afterMark : Bool) (front : Text) (before : List Token) (kind : Kind) (i : Nat)
    (after : List Token) :
    ∃ woven, weave afterMark front (before ++ mark kind i :: after) =
      woven ++ mark kind i :: weave true [] after := by
  induction before generalizing afterMark front with
  | nil => exact ⟨_, rfl⟩
  | cons token before ih =>
    cases token with
    | text t => exact ih afterMark (front ++ t)
    | mark k j =>
      obtain ⟨woven, h⟩ := ih true []
      refine ⟨(if front.isEmpty && !afterMark then [] else [text front]) ++ mark k j :: woven, ?_⟩
      rw [List.cons_append, weave, h, List.append_assoc, List.cons_append]

/-- A piece that is not empty lies inside one literal of the woven tokens; the marks before that
literal are the marks before the piece. -/
theorem weave_piece (afterMark : Bool) (front : Text) (before : List Token) {t : Text}
    (ht : t ≠ []) (after : List Token) :
    ∃ wovenBefore left right wovenAfter,
      weave afterMark front (before ++ text t :: after) =
        wovenBefore ++ text (left ++ t ++ right) :: wovenAfter ∧
      marks wovenBefore = marks before ∧
      literals wovenBefore ++ left = front ++ literals before := by
  induction before generalizing afterMark front with
  | nil =>
    -- The literal goes on with the pieces that follow `t` up to the next mark.
    have hgrow : ∀ (after : List Token) (s : Text), ∃ right wovenAfter,
        weave afterMark (front ++ t ++ s) after = text (front ++ t ++ right) :: wovenAfter := by
      intro after
      induction after with
      | nil => intro s; exact ⟨s, [], by simp [weave, ht]⟩
      | cons token after ih =>
        intro s
        cases token with
        | text u =>
          obtain ⟨right, wovenAfter, h⟩ := ih (s ++ u)
          exact ⟨right, wovenAfter, by rw [weave, ← h, List.append_assoc (front ++ t)]⟩
        | mark k j => exact ⟨s, mark k j :: weave true [] after, by simp [weave, ht]⟩
    obtain ⟨right, wovenAfter, h⟩ := hgrow after []
    rw [List.append_nil] at h
    exact ⟨[], front, right, wovenAfter, h, rfl, by simp⟩
  | cons token before ih =>
    cases token with
    | text u =>
      obtain ⟨wovenBefore, left, right, wovenAfter, h, hm, hl⟩ := ih afterMark (front ++ u)
      exact ⟨wovenBefore, left, right, wovenAfter, h, hm, by simpa using hl⟩
    | mark k j =>
      obtain ⟨wovenBefore, left, right, wovenAfter, h, hm, hl⟩ := ih true []
      refine ⟨(if front.isEmpty && !afterMark then [] else [text front]) ++
        mark k j :: wovenBefore, left, right, wovenAfter, ?_, ?_, ?_⟩
      · rw [List.cons_append, weave, h]
        simp
      · rw [marks_append, marks_mark, hm, marks_mark]
        split <;> simp
      · rw [literals_append, literals_mark, literals_mark, List.append_assoc, hl]
        split
        · next he => simp at he; simp [he.1]
        · simp

end Token

/-! ### Reading the sentinels -/

namespace Marked

/-- The cut of a text that tokens make up; `front` is the literal under way. -/
def ofTokens (front : Text) : List Token → Marked
  | [] => ⟨[], front⟩
  | .text t :: tokens => ofTokens (front ++ t) tokens
  | .mark kind index :: tokens =>
    ⟨(front, ofIndex kind index) :: (ofTokens [] tokens).parts, (ofTokens [] tokens).tail⟩

/-- The sentinels found in a text that clean pieces and marks make up are these marks. -/
theorem ofText_write {front : Text} {tokens : List Token}
    (hclean : Clean (front ++ Token.literals tokens))
    (hindex : ∀ kind i, (kind, i) ∈ Token.marks tokens → i < indexBound) :
    ofText (front ++ tokens.flatMap Token.write) = ofTokens front tokens := by
  induction tokens generalizing front with
  | nil => simpa [ofTokens] using ofText_of_clean (by simpa using hclean)
  | cons token tokens ih =>
    cases token with
    | text t =>
      rw [ofTokens, ← ih (by simpa using hclean) hindex]
      simp [Token.write]
    | mark kind i =>
      have hi : i < indexBound := hindex kind i (by simp)
      have hfront : Clean front := hclean.of_infix (List.prefix_append _ _).isInfix
      have hrest : Clean ([] ++ Token.literals tokens) :=
        hclean.of_infix (List.suffix_append front _).isInfix
      have htail := ih hrest fun k j hkj => hindex k j (List.mem_cons_of_mem _ hkj)
      rw [List.flatMap_cons, Token.write, ofText_append_sentinel hfront kind hi, ofTokens, ← htail]
      rfl

end Marked

namespace Token

/-- The marks of tokens with the bytes where they stand; `offset` is where the tokens begin. -/
def placedMarks (offset : Nat) : List Token → List Placed
  | [] => []
  | text t :: tokens => placedMarks (offset + t.byteLength) tokens
  | mark kind index :: tokens =>
    ⟨kind, index, offset⟩ ::
      placedMarks (offset + (ofIndex kind index).toText.byteLength) tokens

/-- The mark without its place. -/
def Placed.key (placed : Placed) : Kind × Nat :=
  (placed.kind, placed.index)

theorem map_key_placedMarks (offset : Nat) (tokens : List Token) :
    (placedMarks offset tokens).map Placed.key = marks tokens := by
  induction tokens generalizing offset with
  | nil => rfl
  | cons token tokens ih =>
    cases token with
    | text t => rw [placedMarks, ih, marks_text]
    | mark kind i => rw [placedMarks, List.map_cons, ih, marks_mark]; rfl

theorem offset_le_of_mem_placedMarks {offset : Nat} {tokens : List Token} {placed : Placed}
    (h : placed ∈ placedMarks offset tokens) : offset ≤ placed.offset := by
  induction tokens generalizing offset with
  | nil => simp [placedMarks] at h
  | cons token tokens ih =>
    cases token with
    | text t => exact Nat.le_trans (Nat.le_add_right _ _) (ih h)
    | mark kind i =>
      rcases List.mem_cons.mp h with rfl | h
      · exact Nat.le_refl _
      · exact Nat.le_trans (Nat.le_add_right _ _) (ih h)

/-- Marks stand in ascending order. -/
theorem pairwise_placedMarks (offset : Nat) (tokens : List Token) :
    (placedMarks offset tokens).Pairwise fun p q => p.offset ≤ q.offset := by
  induction tokens generalizing offset with
  | nil => exact List.Pairwise.nil
  | cons token tokens ih =>
    cases token with
    | text t => exact ih _
    | mark kind i =>
      refine List.pairwise_cons.mpr ⟨fun q hq => ?_, ih _⟩
      exact Nat.le_trans (Nat.le_add_right _ _) (offset_le_of_mem_placedMarks hq)

theorem offset?_eq_none {placed : List Placed} {kind : Kind} {i : Nat}
    (h : (kind, i) ∉ placed.map Placed.key) : Reader.offset? placed kind i = none := by
  rw [Reader.offset?, Option.map_eq_none_iff, List.find?_eq_none]
  intro p hp hk
  simp only [decide_eq_true_eq] at hk
  exact h (List.mem_map.mpr ⟨p, hp, by rw [Placed.key, hk.1, hk.2]⟩)

theorem offset?_eq_some {placed : List Placed} (hnodup : (placed.map Placed.key).Nodup)
    {p : Placed} (hp : p ∈ placed) : Reader.offset? placed p.kind p.index = some p.offset := by
  induction placed with
  | nil => simp at hp
  | cons q placed ih =>
    rw [List.map_cons, List.nodup_cons] at hnodup
    rcases List.mem_cons.mp hp with rfl | hp
    · simp [Reader.offset?]
    · have hne : ¬ (q.kind = p.kind ∧ q.index = p.index) := fun h =>
        hnodup.1 (List.mem_map.mpr ⟨p, hp, by rw [Placed.key, Placed.key, h.1, h.2]⟩)
      have hrest := ih hnodup.2 hp
      rw [Reader.offset?] at hrest ⊢
      rw [List.find?_cons_of_neg (by simpa using hne), hrest]

/-- Reading the parts of a text that tokens make up gives the woven tokens, if no mark comes
twice. -/
theorem foldlM_next_ofTokens {tokens : List Token} {front : Text} {reader : Reader}
    (hrun : reader.run = [])
    (hnodup : (reader.marks.map Placed.key ++ marks tokens).Nodup) :
    ∃ after, (Marked.ofTokens front tokens).parts.foldlM
        (fun reader part => reader.next part.1 part.2) reader = .ok after ∧
      after.finish (Marked.ofTokens front tokens).tail =
        reader.tokens.reverse ++ weave reader.afterMark front tokens ∧
      after.marks = (placedMarks (reader.offset + front.byteLength) tokens).reverse ++
        reader.marks := by
  induction tokens generalizing front reader with
  | nil =>
    refine ⟨reader, rfl, ?_, by simp [placedMarks]⟩
    simp only [Reader.finish, Marked.ofTokens, weave, hrun, List.nil_append]
    split <;> simp
  | cons token tokens ih =>
    cases token with
    | text t =>
      obtain ⟨after, hfold, hfinish, hmarks⟩ := @ih (front ++ t) reader hrun hnodup
      refine ⟨after, hfold, hfinish, ?_⟩
      rw [hmarks, byteLength_append, ← Nat.add_assoc]
      rfl
    | mark kind i =>
      rw [marks_mark, List.nodup_middle, List.nodup_cons] at hnodup
      obtain ⟨hfresh, hnodup'⟩ := hnodup
      have hnone : Reader.offset? reader.marks kind i = none :=
        offset?_eq_none fun h => hfresh (List.mem_append_left _ h)
      -- No mark of this kind and number has come before, so the reader takes it.
      have hstep : reader.next front (ofIndex kind i) = .ok
          ⟨mark kind i :: (if front.isEmpty && !reader.afterMark then reader.tokens
            else text front :: reader.tokens),
            ⟨kind, i, reader.offset + front.byteLength⟩ :: reader.marks, [],
            reader.offset + front.byteLength + (ofIndex kind i).toText.byteLength, true⟩ := by
        have hkind : (ofIndex kind i).kind = kind := rfl
        simp only [Reader.next, hrun, List.nil_append, index?_ofIndex, hkind, hnone,
          Option.isSome_none, Bool.false_eq_true, if_false]
      obtain ⟨after, hfold, hfinish, hmarks⟩ := @ih []
        ⟨mark kind i :: (if front.isEmpty && !reader.afterMark then reader.tokens
            else text front :: reader.tokens),
          ⟨kind, i, reader.offset + front.byteLength⟩ :: reader.marks, [],
          reader.offset + front.byteLength + (ofIndex kind i).toText.byteLength, true⟩ rfl
        (List.nodup_cons.mpr ⟨hfresh, hnodup'⟩)
      refine ⟨after, ?_, ?_, ?_⟩
      · rw [Marked.ofTokens, List.foldlM_cons, hstep]
        exact hfold
      · rw [Marked.ofTokens, hfinish, weave]
        split <;> simp
      · rw [hmarks, placedMarks, List.reverse_cons, List.append_assoc]
        simp

/-- Each start has its end and each end its start, and no end stands before its start. -/
structure Paired (marks : List (Kind × Nat)) : Prop where
  partner : ∀ i, (.start, i) ∈ marks ↔ (.stop, i) ∈ marks
  ordered : marks.Pairwise fun m n => ∀ i, m = (.stop, i) → n ≠ (.start, i)

theorem Paired.split {marks : List (Kind × Nat)} (h : Paired marks) {i : Nat}
    (hmem : (.stop, i) ∈ marks) :
    ∃ before between after, marks = before ++ (.start, i) :: between ++ (.stop, i) :: after := by
  have hstart := (h.partner i).mpr hmem
  obtain ⟨front, after, rfl⟩ := List.append_of_mem hmem
  have hfront : (.start, i) ∈ front := by
    rcases List.mem_append.mp hstart with hf | hb
    · exact hf
    · rcases List.mem_cons.mp hb with heq | ha
      · cases heq
      · have hrest := (List.pairwise_cons.mp (List.pairwise_append.mp h.ordered).2.1).1
        exact absurd rfl (hrest _ ha i rfl)
  obtain ⟨before, between, rfl⟩ := List.append_of_mem hfront
  exact ⟨before, between, after, rfl⟩

/-- Nothing is wrong with starts and ends that are paired and stand in ascending order. -/
theorem partnerError?_reverse_eq_none {placed : List Placed}
    (hascending : placed.Pairwise fun p q => p.offset ≤ q.offset)
    (hnodup : (placed.map Placed.key).Nodup) (hpaired : Paired (placed.map Placed.key)) (i : Nat) :
    Reader.partnerError? placed.reverse i = none := by
  have hkeys : (placed.reverse.map Placed.key).Nodup := by
    rw [List.map_reverse]
    exact List.nodup_reverse.mpr hnodup
  by_cases hmem : (.stop, i) ∈ placed.map Placed.key
  · obtain ⟨before, between, after, heq⟩ := hpaired.split hmem
    rw [List.map_eq_append_iff] at heq
    obtain ⟨front, back, rfl, hfront, hback⟩ := heq
    obtain ⟨stop, back', rfl, hstop, _⟩ := List.map_eq_cons_iff.mp hback
    obtain ⟨front', middle, rfl, _, hmiddle⟩ := List.map_eq_append_iff.mp hfront
    obtain ⟨start, middle', rfl, hstart, _⟩ := List.map_eq_cons_iff.mp hmiddle
    have hle : start.offset ≤ stop.offset :=
      (List.pairwise_append.mp hascending).2.2 start (by simp) stop (by simp)
    have hs := offset?_eq_some hkeys (p := start) (by simp)
    have he := offset?_eq_some hkeys (p := stop) (by simp)
    rw [show start.kind = .start from congrArg Prod.fst hstart,
      show start.index = i from congrArg Prod.snd hstart] at hs
    rw [show stop.kind = .stop from congrArg Prod.fst hstop,
      show stop.index = i from congrArg Prod.snd hstop] at he
    simp only [Reader.partnerError?, hs, he]
    exact if_neg (Nat.not_lt.mpr hle)
  · have hnone (kind : Kind) (h : (kind, i) ∉ placed.map Placed.key) :
        Reader.offset? placed.reverse kind i = none := by
      refine offset?_eq_none ?_
      rwa [List.map_reverse, List.mem_reverse]
    rw [Reader.partnerError?, hnone .start fun h => hmem ((hpaired.partner i).mp h),
      hnone .stop hmem]

/-- Nothing is wrong with the starts and ends of tokens where they are paired. -/
theorem partnerError?_eq_none {tokens : List Token} (hnodup : (marks tokens).Nodup)
    (hpaired : Paired (marks tokens)) (i : Nat) :
    Reader.partnerError? (placedMarks 0 tokens).reverse i = none := by
  rw [← map_key_placedMarks 0] at hnodup hpaired
  exact partnerError?_reverse_eq_none (pairwise_placedMarks 0 tokens) hnodup hpaired i

/-- **Reading back.**  A text made up of clean pieces and marks is read as these, with the pieces
between two marks joined. -/
theorem ofText_write {tokens : List Token} (hclean : Clean (literals tokens))
    (hindex : ∀ kind i, (kind, i) ∈ marks tokens → i < indexBound)
    (hnodup : (marks tokens).Nodup) (hpaired : Paired (marks tokens)) :
    ofText (tokens.flatMap write) = .ok (weave false [] tokens) := by
  have hmarked : Marked.ofText ([] ++ tokens.flatMap write) = Marked.ofTokens [] tokens :=
    Marked.ofText_write hclean hindex
  rw [List.nil_append] at hmarked
  obtain ⟨after, hfold, hfinish, hmarks⟩ :=
    @foldlM_next_ofTokens tokens [] Reader.start rfl hnodup
  have hplaced : after.marks = (placedMarks 0 tokens).reverse := by
    simpa [Reader.start] using hmarks
  have herror : (IndexSet.ofList (after.marks.map Placed.index)).toList.findSome?
      (Reader.partnerError? after.marks) = none := by
    rw [List.findSome?_eq_none_iff, hplaced]
    intro i _
    exact partnerError?_eq_none hnodup hpaired i
  unfold ofText
  simp only [hmarked, hfold, bind, Except.bind, herror]
  rw [hfinish]
  rfl

/-! ### The check of the round trip -/

theorem unknownIndex?_eq_none {tokens : List Token} {expected : Nat} (offset : Nat)
    (h : ∀ kind i, (kind, i) ∈ marks tokens → i < expected) :
    unknownIndex? expected offset tokens = none := by
  induction tokens generalizing offset with
  | nil => rfl
  | cons token tokens ih =>
    cases token with
    | text t => exact ih _ h
    | mark kind i =>
      rw [unknownIndex?, if_pos (h kind i (by simp))]
      exact ih _ fun k j hkj => h k j (List.mem_cons_of_mem _ hkj)

theorem missing?_eq_none {tokens : List Token} {expected : Nat}
    (h : ∀ i < expected, ∀ kind, (kind, i) ∈ marks tokens) (index : Nat) :
    missing? tokens expected index = none := by
  fun_induction missing? tokens expected index with
  | case1 index hlt kind hfind =>
    have hno := List.find?_some hfind
    have hmem := mem_marks.mp (h index hlt kind)
    simp [hmem] at hno
  | case2 index hlt hfind ih => exact ih
  | case3 index hge => rfl

/-- The marks are those of `expected` highlights if all have an index below it and none is
missing. -/
theorem checkRoundTrip_eq_ok {tokens : List Token} {expected : Nat}
    (hbound : ∀ kind i, (kind, i) ∈ marks tokens → i < expected)
    (hall : ∀ i < expected, ∀ kind, (kind, i) ∈ marks tokens) :
    checkRoundTrip tokens expected = .ok () := by
  rw [checkRoundTrip, unknownIndex?_eq_none 0 hbound]
  simp only [missing?_eq_none hall]
  rfl

end Token

end Marginalia
