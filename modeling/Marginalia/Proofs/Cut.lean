import Marginalia.Proofs.Nesting.Ending
import Marginalia.Proofs.Offset.Slice

/-! # Scans over a cut

The text of a document is cut into regions, and an argument without text or mathematics may go on
over several of them.  The segmenter then scans each region on its own and carries over how many
groups are open, or which delimiter ends the mathematics.  That is all that an uncut scan would know
at the cut, provided that the cut parts no lexeme which scans read as a whole: a backslash from its
character, a comment from its line feed (`EndsWhole`), or the two dollar signs that end mathematics.
A cut in the midst of a control word does no harm, as its letters end nothing.

So the scan of a text goes on behind the cut with what the scan in front of it has left open
(`closeGroup_append_of_unclosed`, `close?_append_of_none`), and what is open before a row of regions
ends at the same byte wherever their boundaries fall (`resumes_uncut`).
-/
namespace Marginalia

open Text

namespace Latex

variable {front back rest : Text} {depth : Nat}

/-- A scan of the text comes to its end between two lexemes: neither behind a backslash that has no
character, nor in a comment that has no line feed. -/
structure EndsWhole (text : Text) : Prop where
  escape : ¬ ComesTo text ['\\']
  comment : ∀ line, ComesTo text ('%' :: line) → '\n' ∈ line

theorem EndsWhole.of_comesTo (h : EndsWhole front) (hcomes : ComesTo front rest) : EndsWhole rest :=
  ⟨fun hescape => h.escape (hcomes.trans hescape),
    fun line hcomment => h.comment line (hcomes.trans hcomment)⟩

theorem EndsWhole.ne_nil (h : EndsWhole ('\\' :: front)) : front ≠ [] := by
  rintro rfl
  exact h.escape (.refl _)

theorem endsWhole_nil : EndsWhole [] := by
  constructor
  · intro hcomes
    cases hcomes
  · intro line hcomes
    cases hcomes

theorem EndsWhole.char {c : Char} (hescape : c ≠ '\\') (hcomment : c ≠ '%') (h : EndsWhole front) :
    EndsWhole (c :: front) := by
  refine ⟨fun hcomes => ?_, fun line hcomes => ?_⟩
  · cases hcomes with
    | refl => exact hescape rfl
    | control => exact hescape rfl
    | comment => exact hcomment rfl
    | char _ _ hcomes => exact h.escape hcomes
  · cases hcomes with
    | refl => exact absurd rfl hcomment
    | control => exact absurd rfl hescape
    | comment => exact absurd rfl hcomment
    | char _ _ hcomes => exact h.comment line hcomes

theorem EndsWhole.control (hne : front ≠ []) (h : EndsWhole (readControl front).2) :
    EndsWhole ('\\' :: front) := by
  refine ⟨fun hcomes => ?_, fun line hcomes => ?_⟩
  · cases hcomes with
    | refl => exact hne rfl
    | control hcomes => exact h.escape hcomes
    | char hescape => exact hescape rfl
  · cases hcomes with
    | control hcomes => exact h.comment line hcomes
    | char hescape => exact absurd rfl hescape

/-! ### Groups -/

/-- Behind a cut, too, a comment is passed over whose line feed stands before it. -/
theorem dropComment_append_of_mem (h : '\n' ∈ front) (back : Text) :
    dropComment (front ++ back) = dropComment front ++ back := by
  induction front with
  | nil => cases h
  | cons c front ih =>
    rw [List.cons_append, dropComment, dropComment]
    by_cases hc : c = '\n'
    · rw [if_pos hc, if_pos hc]
    · rw [if_neg hc, if_neg hc]
      exact ih ((List.mem_cons.mp h).resolve_left (Ne.symm hc))

/-- Whether a cut stands in the letters of a control word or behind them, a scan over groups passes
over them. -/
theorem closeGroup_control_append (hne : front ≠ []) (back : Text) :
    closeGroup depth ('\\' :: (front ++ back)) =
      closeGroup depth ((readControl front).2 ++ back) := by
  obtain ⟨c, front, rfl⟩ := List.exists_cons_of_ne_nil hne
  rw [List.cons_append, closeGroup_escape, readControl]
  split
  · calc closeGroup depth (front ++ back)
        = closeGroup depth
            (front.takeWhile Char.isAlpha ++ (front.dropWhile Char.isAlpha ++ back)) := by
          rw [← List.append_assoc, List.takeWhile_append_dropWhile]
      _ = closeGroup depth (front.dropWhile Char.isAlpha ++ back) :=
          closeGroup_append
            (fun d hd => inert_of_isAlpha (List.all_eq_true.mp List.all_takeWhile d hd)) _
  · rfl

/-- A group that closes before the cut closes there in the whole text. -/
theorem closeGroup_append_of_closed (h : closeGroup depth front = .closed rest) (back : Text) :
    closeGroup depth (front ++ back) = .closed (rest ++ back) := by
  obtain ⟨group, rfl, hgroup⟩ := closeGroup_replace h
  rw [List.append_assoc]
  exact hgroup (rest ++ back)

/-- **The scan of a group goes on behind a cut** with the groups that are open there. -/
theorem closeGroup_append_of_unclosed (hwhole : EndsWhole front) {left : Nat}
    (h : closeGroup depth front = .unclosed left) (back : Text) :
    closeGroup depth (front ++ back) = closeGroup left back := by
  fun_induction closeGroup depth front with
  | case1 depth =>
    obtain rfl := Closing.unclosed.inj h
    rfl
  | case2 depth text ih =>
    rw [List.cons_append, closeGroup_control_append hwhole.ne_nil]
    exact ih (hwhole.of_comesTo (.control (.refl _))) h
  | case3 depth text ih =>
    rw [List.cons_append, closeGroup, dropComment_append_of_mem (hwhole.comment text (.refl _))]
    exact ih (hwhole.of_comesTo (.comment (.refl _))) h
  | case4 depth text ih =>
    rw [List.cons_append, closeGroup]
    exact ih (hwhole.of_comesTo (.char (by decide) (by decide) (.refl _))) h
  | case5 => cases h
  | case6 depth text hdepth ih =>
    rw [List.cons_append, closeGroup, if_neg hdepth]
    exact ih (hwhole.of_comesTo (.char (by decide) (by decide) (.refl _))) h
  | case7 depth c text hescape hcomment hleft hright ih =>
    rw [List.cons_append, closeGroup_cons ⟨hescape, hleft, hright, hcomment⟩]
    exact ih (hwhole.of_comesTo (.char hescape hcomment (.refl _))) h

end Latex

open Latex

/-! ### Mathematics -/

namespace MathDelimiter

variable {delimiter : MathDelimiter} {front back rest : Text}

theorem isAlpha_of_closer? {c : Char} (h : delimiter.closer? = some c) : c.isAlpha = false := by
  cases delimiter with
  | dollar => cases h
  | doubleDollar => cases h
  | paren => exact Option.some.inj h ▸ by decide
  | bracket => exact Option.some.inj h ▸ by decide

theorem close?_letters {word : Text} (h : ∀ c ∈ word, c.isAlpha = true) (rest : Text) :
    delimiter.close? (word ++ rest) = delimiter.close? rest := by
  induction word with
  | nil => rfl
  | cons c word ih =>
    obtain ⟨hc, hword⟩ := List.forall_mem_cons.mp h
    have hinert := inert_of_isAlpha hc
    have hdollar : c ≠ '$' := by
      rintro rfl
      exact absurd hc (by decide)
    rw [List.cons_append, close?_cons hinert.escape hinert.comment hdollar, ih hword]

/-- A backslash and the character behind it end mathematics or are passed over: the other letters of
a word do not end it. -/
theorem close?_escape (c : Char) (text : Text) :
    delimiter.close? ('\\' :: c :: text) =
      if delimiter.closer? = some c then some text else delimiter.close? text := by
  rw [close?, readControl]
  by_cases hc : c.isAlpha = true
  · have hcloser : delimiter.closer? ≠ some c := by
      intro heq
      rw [isAlpha_of_closer? heq] at hc
      cases hc
    rw [if_pos hc, if_neg (by cases delimiter <;> simp [closer?]), if_neg hcloser]
    calc delimiter.close? (text.dropWhile Char.isAlpha)
        = delimiter.close? (text.takeWhile Char.isAlpha ++ text.dropWhile Char.isAlpha) :=
          (close?_letters (List.all_eq_true.mp List.all_takeWhile) _).symm
      _ = delimiter.close? text := by rw [List.takeWhile_append_dropWhile]
  · rw [if_neg hc]
    by_cases hcloser : delimiter.closer? = some c
    · rw [if_pos (by rw [hcloser]; rfl), if_pos hcloser]
    · rw [if_neg hcloser, if_neg]
      intro heq
      cases hsome : delimiter.closer? with
      | none =>
        rw [hsome] at heq
        cases heq
      | some d =>
        rw [hsome, Option.map_some, Option.some.injEq, Control.symbol.injEq] at heq
        exact hcloser (heq ▸ hsome)

/-- Whether a cut stands in the letters of a control word or behind them, the search for the end of
mathematics passes over them. -/
theorem close?_control_append (hne : front ≠ [])
    (hcloser : delimiter.closer?.map Control.symbol ≠ some (readControl front).1) (back : Text) :
    delimiter.close? ('\\' :: (front ++ back)) =
      delimiter.close? ((readControl front).2 ++ back) := by
  obtain ⟨c, front, rfl⟩ := List.exists_cons_of_ne_nil hne
  rw [List.cons_append, close?_escape]
  rw [readControl] at hcloser ⊢
  by_cases hc : c.isAlpha = true
  · have hsymbol : delimiter.closer? ≠ some c := by
      intro heq
      rw [isAlpha_of_closer? heq] at hc
      cases hc
    rw [if_neg hsymbol, if_pos hc]
    calc delimiter.close? (front ++ back)
        = delimiter.close?
            (front.takeWhile Char.isAlpha ++ (front.dropWhile Char.isAlpha ++ back)) := by
          rw [← List.append_assoc, List.takeWhile_append_dropWhile]
      _ = delimiter.close? (front.dropWhile Char.isAlpha ++ back) :=
          close?_letters (List.all_eq_true.mp List.all_takeWhile) _
  · rw [if_neg hc] at hcloser ⊢
    rw [if_neg fun heq => hcloser (by rw [heq]; rfl)]

/-- A control symbol that ends mathematics is read as a whole before the cut. -/
theorem exists_of_closer? {text : Text}
    (h : delimiter.closer?.map Control.symbol = some (readControl text).1) :
    ∃ c, delimiter.closer? = some c ∧ text = c :: (readControl text).2 := by
  obtain ⟨c, hc, hsymbol⟩ := Option.map_eq_some_iff.mp h
  refine ⟨c, hc, ?_⟩
  cases text with
  | nil => cases hsymbol
  | cons d text =>
    rw [readControl] at hsymbol ⊢
    split at hsymbol
    · cases hsymbol
    · next hd =>
      rw [if_neg hd, Control.symbol.inj hsymbol]

theorem close?_dollar {text : Text} (hdollar : delimiter ≠ .dollar)
    (htwo : ¬ (delimiter = .doubleDollar ∧ text.head? = some '$')) :
    delimiter.close? ('$' :: text) = delimiter.close? text := by
  rw [close?, if_neg hdollar, if_neg htwo]

/-- Mathematics that ends before the cut ends there in the whole text. -/
theorem close?_append_of_some (h : delimiter.close? front = some rest) (back : Text) :
    delimiter.close? (front ++ back) = some (rest ++ back) := by
  fun_induction close? delimiter front with
  | case1 => cases h
  | case2 text hclose =>
    obtain rfl := Option.some.inj h
    obtain ⟨c, hc, htext⟩ := exists_of_closer? hclose
    rw [htext, List.cons_append, List.cons_append, close?_escape, if_pos hc, ← htext]
  | case3 text hclose ih =>
    have hne : text ≠ [] := by
      rintro rfl
      simp [readControl, close?] at h
    rw [List.cons_append, close?_control_append hne hclose]
    exact ih h
  | case4 text ih =>
    have hmem : '\n' ∈ text := by
      refine Decidable.byContradiction fun hline => ?_
      rw [(dropComment_line fun c hc heq => hline (heq ▸ hc)).1, close?] at h
      cases h
    rw [List.cons_append, close?, dropComment_append_of_mem hmem]
    exact ih h
  | case5 text hdollar =>
    obtain rfl := Option.some.inj h
    rw [List.cons_append, close?, if_pos hdollar]
  | case6 text hdollar hd =>
    obtain rfl := Option.some.inj h
    obtain ⟨rfl, hhead⟩ := hd
    obtain ⟨text, rfl⟩ := List.head?_eq_some_iff.mp hhead
    rw [List.cons_append, List.cons_append, close?, if_neg hdollar, if_pos ⟨rfl, rfl⟩]
    rfl
  | case7 text hdollar htwo ih =>
    have hne : text ≠ [] := by
      rintro rfl
      simp [close?] at h
    obtain ⟨c, text, rfl⟩ := List.exists_cons_of_ne_nil hne
    have hbehind : ¬ (delimiter = .doubleDollar ∧ (c :: text ++ back).head? = some '$') := htwo
    rw [List.cons_append, close?_dollar hdollar hbehind]
    exact ih h
  | case8 c text hescape hcomment hdollar ih =>
    rw [List.cons_append, close?_cons hescape hcomment hdollar]
    exact ih h

/-- **The search for the end of mathematics goes on behind a cut**, unless the cut parts the two
dollar signs. -/
theorem close?_append_of_none (hwhole : EndsWhole front)
    (hdollars : delimiter = .doubleDollar → ¬ ComesTo front ['$'])
    (h : delimiter.close? front = none) (back : Text) :
    delimiter.close? (front ++ back) = delimiter.close? back := by
  fun_induction close? delimiter front with
  | case1 => rfl
  | case2 => cases h
  | case3 text hclose ih =>
    rw [List.cons_append, close?_control_append hwhole.ne_nil hclose]
    exact ih (hwhole.of_comesTo (.control (.refl _)))
      (fun hdelimiter hcomes => hdollars hdelimiter (.control hcomes)) h
  | case4 text ih =>
    rw [List.cons_append, close?, dropComment_append_of_mem (hwhole.comment text (.refl _))]
    exact ih (hwhole.of_comesTo (.comment (.refl _)))
      (fun hdelimiter hcomes => hdollars hdelimiter (.comment hcomes)) h
  | case5 => cases h
  | case6 => cases h
  | case7 text hdollar htwo ih =>
    have hbehind : ¬ (delimiter = .doubleDollar ∧ (text ++ back).head? = some '$') := by
      rintro ⟨rfl, hhead⟩
      cases text with
      | nil => exact hdollars rfl (.refl _)
      | cons c text => exact htwo ⟨rfl, hhead⟩
    rw [List.cons_append, close?_dollar hdollar hbehind]
    exact ih (hwhole.of_comesTo (.char (by decide) (by decide) (.refl _)))
      (fun hdelimiter hcomes => hdollars hdelimiter (.char (by decide) (by decide) hcomes)) h
  | case8 c text hescape hcomment hdollar ih =>
    rw [List.cons_append, close?_cons hescape hcomment hdollar]
    exact ih (hwhole.of_comesTo (.char hescape hcomment (.refl _)))
      (fun hdelimiter hcomes => hdollars hdelimiter (.char hescape hcomment hcomes)) h

end MathDelimiter

/-! ### Positions -/

namespace Latex

variable {front : Text}

/-- Where a group inside which `depth` groups are open ends in a text, or how many groups are open
at the end of the text. -/
def groupEnd (depth : Nat) (text : Text) : Except Nat Nat :=
  (closeGroup depth text).inBytes text

theorem position_append_right {rest : Text} (h : rest <:+ front) (back : Text) :
    position (front ++ back) (rest ++ back) = position front rest := by
  obtain ⟨part, rfl⟩ := h
  rw [List.append_assoc, position_append, position_append]

theorem groupEnd_append_of_ok {depth stop : Nat} (h : groupEnd depth front = .ok stop)
    (back : Text) :
    groupEnd depth (front ++ back) = .ok stop := by
  rw [groupEnd] at h ⊢
  cases hfront : closeGroup depth front with
  | closed rest =>
    rw [closeGroup_append_of_closed hfront, ← h, hfront]
    exact congrArg Except.ok (position_append_right (closeGroup_suffix hfront) back)
  | unclosed left =>
    rw [hfront] at h
    cases h

theorem groupEnd_append_of_error (hwhole : EndsWhole front) {depth left : Nat}
    (h : groupEnd depth front = .error left) (back : Text) :
    groupEnd depth (front ++ back) = (groupEnd left back).map (front.byteLength + ·) := by
  rw [groupEnd] at h
  cases hfront : closeGroup depth front with
  | closed rest =>
    rw [hfront] at h
    cases h
  | unclosed left' =>
    rw [hfront] at h
    obtain rfl : left' = left := Except.error.inj h
    rw [groupEnd, closeGroup_append_of_unclosed hwhole hfront, groupEnd]
    cases hback : closeGroup left' back with
    | closed rest => exact congrArg Except.ok (position_append_append (closeGroup_suffix hback))
    | unclosed depth => rfl

end Latex

namespace MathDelimiter

variable {delimiter : MathDelimiter} {front : Text}

/-- Where mathematics ends in a text. -/
def end? (delimiter : MathDelimiter) (text : Text) : Option Nat :=
  (delimiter.close? text).map (position text)

theorem end?_append_of_some {stop : Nat} (h : delimiter.end? front = some stop) (back : Text) :
    delimiter.end? (front ++ back) = some stop := by
  obtain ⟨rest, hfront, rfl⟩ := Option.map_eq_some_iff.mp h
  rw [end?, close?_append_of_some hfront]
  exact congrArg some (position_append_right (close?_suffix hfront) back)

theorem end?_append_of_none (hwhole : EndsWhole front)
    (hdollars : delimiter = .doubleDollar → ¬ ComesTo front ['$']) (h : delimiter.end? front = none)
    (back : Text) :
    delimiter.end? (front ++ back) = (delimiter.end? back).map (front.byteLength + ·) := by
  have hfront : delimiter.close? front = none := Option.map_eq_none_iff.mp h
  rw [end?, close?_append_of_none hwhole hdollars hfront, end?]
  cases hback : delimiter.close? back with
  | some rest => exact congrArg some (position_append_append (close?_suffix hback))
  | none => rfl

end MathDelimiter

namespace Segmenter

open MathDelimiter

/-! ### Regions -/

variable {state : Segmenter} {mode mode' : Mode} {front text : Text} {texts : List Text}

/-- Where what is open before a row of regions ends, counted from the beginning of the first. -/
def endAmong (state : Segmenter) : List Text → Option Nat
  | [] => none
  | text :: texts =>
    if (resume state text).state.mode = .text then some (resume state text).piece.byteLength
    else (endAmong (split state text).2 texts).map (text.byteLength + ·)

/-- What is open is an argument that holds no text, or mathematics. -/
def GroupOrMath (mode : Mode) : Prop :=
  (∃ depth, mode = .raw depth) ∨ ∃ delimiter, mode = .math delimiter

/-- Where what is open ends in a region, or what is open at the end of the region. -/
def carry (mode : Mode) (text : Text) : Except Mode Nat :=
  match mode with
  | .raw depth => (groupEnd depth text).mapError .raw
  | .math delimiter =>
    match delimiter.end? text with
    | some stop => .ok stop
    | none => .error mode
  | _ => .error mode

theorem GroupOrMath.of_carry (h : GroupOrMath mode) (hcarry : carry mode text = .error mode') :
    GroupOrMath mode' := by
  rcases h with ⟨depth, rfl⟩ | ⟨delimiter, rfl⟩
  · cases hend : groupEnd depth text with
    | ok stop =>
      rw [carry, hend] at hcarry
      cases hcarry
    | error left =>
      rw [carry, hend] at hcarry
      exact .inl ⟨left, (Except.error.inj hcarry).symm⟩
  · rw [carry] at hcarry
    split at hcarry
    · cases hcarry
    · exact .inr ⟨delimiter, (Except.error.inj hcarry).symm⟩

/-- Mathematics that goes on is the same mathematics. -/
theorem eq_math_of_carry {delimiter : MathDelimiter}
    (hcarry : carry mode text = .error (.math delimiter)) : mode = .math delimiter := by
  cases mode with
  | raw depth =>
    rw [carry] at hcarry
    cases hend : groupEnd depth text with
    | ok stop => rw [hend] at hcarry; cases hcarry
    | error left => rw [hend] at hcarry; cases hcarry
  | math delimiter' =>
    rw [carry] at hcarry
    split at hcarry
    · cases hcarry
    · exact Except.error.inj hcarry
  | text => cases hcarry
  | verbatim env => cases hcarry

theorem carry_raw (depth : Nat) (text : Text) :
    carry (.raw depth) text = match closeGroup depth text with
      | .closed rest => .ok (position text rest)
      | .unclosed left => .error (.raw left) := by
  rw [carry, groupEnd]
  cases closeGroup depth text <;> rfl

theorem endAmong_cons (h : GroupOrMath state.mode) (text : Text) (texts : List Text) :
    endAmong state (text :: texts) =
      match carry state.mode text with
      | .ok stop => some stop
      | .error mode => (endAmong { state with mode } texts).map (text.byteLength + ·) := by
  obtain ⟨mode, brackets⟩ := state
  rcases h with ⟨depth, rfl⟩ | ⟨delimiter, rfl⟩
  · rw [endAmong, split]
    rw [carry_raw]
    cases hclose : closeGroup depth text with
    | closed rest => simp [resume, hclose, passUpTo, position]
    | unclosed left => simp [resume, hclose, parts]
  · rw [endAmong, split]
    cases hclose : delimiter.close? text with
    | some rest => simp [resume, hclose, carry, MathDelimiter.end?, passOrCarry, passUpTo, position]
    | none => simp [resume, hclose, carry, MathDelimiter.end?, passOrCarry, parts]

/-- A cut at which nothing is lost of what an uncut scan would know. -/
structure Uncut (mode : Mode) (text : Text) : Prop where
  whole : EndsWhole text
  dollars : mode = .math .doubleDollar → ¬ ComesTo text ['$']

theorem carry_append_of_ok {stop : Nat} (h : carry mode front = .ok stop) (back : Text) :
    carry mode (front ++ back) = .ok stop := by
  cases mode with
  | raw depth =>
    rw [carry] at h ⊢
    cases hend : groupEnd depth front with
    | ok stop' =>
      rw [groupEnd_append_of_ok hend, ← h, hend]
    | error left =>
      rw [hend] at h
      cases h
  | math delimiter =>
    rw [carry] at h ⊢
    split at h
    · next stop' hend =>
      rw [end?_append_of_some hend]
      exact h
    · cases h
  | text => cases h
  | verbatim env => cases h

theorem carry_append_of_error (hmode : GroupOrMath mode) (huncut : Uncut mode front)
    (h : carry mode front = .error mode') (back : Text) :
    carry mode (front ++ back) = (carry mode' back).map (front.byteLength + ·) := by
  rcases hmode with ⟨depth, rfl⟩ | ⟨delimiter, rfl⟩
  · rw [carry] at h
    cases hend : groupEnd depth front with
    | ok stop =>
      rw [hend] at h
      cases h
    | error left =>
      rw [hend] at h
      obtain rfl : Mode.raw left = mode' := Except.error.inj h
      rw [carry, groupEnd_append_of_error huncut.whole hend, carry]
      cases groupEnd left back <;> rfl
  · rw [carry] at h
    split at h
    · cases h
    · next hend =>
      obtain rfl : Mode.math delimiter = mode' := Except.error.inj h
      have hdollars : delimiter = .doubleDollar → ¬ ComesTo front ['$'] :=
        fun heq => huncut.dollars (heq ▸ rfl)
      rw [carry, end?_append_of_none huncut.whole hdollars hend, carry]
      cases delimiter.end? back <;> rfl

theorem endAmong_append (h : GroupOrMath state.mode)
    (hcuts : ∀ done text, done ++ [text] <+: texts → endAmong state (done ++ [text]) = none →
      Uncut state.mode text) (back : Text) :
    endAmong state (texts ++ [back]) = endAmong state [texts.flatten ++ back] := by
  induction texts generalizing state with
  | nil => rfl
  | cons text texts ih =>
    rw [List.cons_append, List.flatten_cons, List.append_assoc, endAmong_cons h, endAmong_cons h]
    cases hcarry : carry state.mode text with
    | ok stop => rw [carry_append_of_ok hcarry]
    | error mode =>
      have hmode : GroupOrMath mode := h.of_carry hcarry
      have hnone : endAmong state [text] = none := by
        rw [endAmong_cons h, hcarry]
        rfl
      have huncut := hcuts [] text (by simp) hnone
      have hbehind : endAmong { state with mode } (texts ++ [back]) =
          endAmong { state with mode } [texts.flatten ++ back] := by
        refine ih hmode fun done next hprefix hopen => ?_
        have hlater := hcuts (text :: done) next (by simpa using hprefix) (by
          rw [List.cons_append, endAmong_cons h, hcarry]
          exact congrArg (Option.map _) hopen)
        refine ⟨hlater.whole, fun heq => hlater.dollars ?_⟩
        exact eq_math_of_carry (hcarry.trans (congrArg Except.error heq))
      rw [carry_append_of_error h huncut hcarry]
      change (endAmong { state with mode } (texts ++ [back])).map _ = _
      rw [hbehind, endAmong_cons hmode]
      cases carry mode (texts.flatten ++ back) with
      | ok stop => rfl
      | error => rfl

/-- **A scan resumes where an uncut scan would be.**  A group that closes in the front of a text
closes there in the whole text; and if the front ends whole, then the scan of the whole text ends
where the scan of the back ends with the groups that the front leaves open, counted from behind the
front.  The same holds of mathematics, unless the front ends in the first of the two dollar signs
that would end it.  So an argument or mathematics that is open before a row of regions ends at the
same byte as in one region of all their text, wherever their boundaries fall before it. -/
theorem resumes_uncut :
    (∀ (depth : Nat) (front back : Text),
      (∀ stop, groupEnd depth front = .ok stop → groupEnd depth (front ++ back) = .ok stop) ∧
      ∀ left, EndsWhole front → groupEnd depth front = .error left →
        groupEnd depth (front ++ back) = (groupEnd left back).map (front.byteLength + ·)) ∧
    (∀ (delimiter : MathDelimiter) (front back : Text),
      (∀ stop, delimiter.end? front = some stop → delimiter.end? (front ++ back) = some stop) ∧
      (EndsWhole front → (delimiter = .doubleDollar → ¬ ComesTo front ['$']) →
        delimiter.end? front = none →
        delimiter.end? (front ++ back) = (delimiter.end? back).map (front.byteLength + ·))) ∧
    ∀ (state : Segmenter) (texts : List Text) (back : Text), GroupOrMath state.mode →
      (∀ done text, done ++ [text] <+: texts → endAmong state (done ++ [text]) = none →
        Uncut state.mode text) →
      endAmong state (texts ++ [back]) = endAmong state [texts.flatten ++ back] :=
  ⟨fun _ _ back => ⟨fun _ h => groupEnd_append_of_ok h back,
      fun _ hwhole h => groupEnd_append_of_error hwhole h back⟩,
    fun _ _ back => ⟨fun _ h => end?_append_of_some h back,
      fun hwhole hdollars h => end?_append_of_none hwhole hdollars h back⟩,
    fun _ _ back h hcuts => endAmong_append h hcuts back⟩

/-- A cut inside a control word, in a group and in mathematics. -/
theorem resumes_uncut_word :
    groupEnd 1 "a\x7bb\\al".toList = .error 2 ∧
    groupEnd 1 ("a\x7bb\\al".toList ++ "pha\x7d\x7dé".toList) =
      (groupEnd 2 "pha\x7d\x7dé".toList).map (6 + ·) ∧
    groupEnd 2 "pha\x7d\x7dé".toList = .ok 5 ∧
    MathDelimiter.paren.end? ("\\al".toList ++ "pha\\)é".toList) = some 8 ∧
    endAmong ⟨.math .paren, []⟩ ["é\\al".toList, "pha".toList, "\\)é".toList] = some 10 := by
  have hword : EndsWhole "\\al".toList := .control (by decide) endsWhole_nil
  have hfront : EndsWhole "a\x7bb\\al".toList :=
    .char (by decide) (by decide) (.char (by decide) (by decide)
      (.char (by decide) (by decide) hword))
  have hunclosed : closeGroup 1 "a\x7bb\\al".toList = .unclosed 2 := by decide +kernel
  have hclosed : closeGroup 2 "pha\x7d\x7dé".toList = .closed "é".toList := by decide +kernel
  have hopen : groupEnd 1 "a\x7bb\\al".toList = .error 2 := congrArg (Closing.inBytes _) hunclosed
  refine ⟨hopen, (resumes_uncut.1 1 _ _).2 2 hfront hopen, ?_, ?_, ?_⟩
  · exact congrArg (Closing.inBytes _) hclosed
  · refine ((resumes_uncut.2.1 .paren _ _).2 hword (fun heq => nomatch heq) ?_).trans ?_ <;>
      decide +kernel
  · have hcuts (text : Text) (h : text = "é\\al".toList ∨ text = "pha".toList) :
        Uncut (.math .paren) text := by
      refine ⟨?_, fun heq => nomatch heq⟩
      rcases h with rfl | rfl
      · exact .char (by decide) (by decide) hword
      · exact .char (by decide) (by decide) (.char (by decide) (by decide)
          (.char (by decide) (by decide) endsWhole_nil))
    refine (resumes_uncut.2.2 ⟨.math .paren, []⟩ ["é\\al".toList, "pha".toList] "\\)é".toList
      (.inr ⟨.paren, rfl⟩) fun done text hprefix _ => hcuts text ?_).trans (by decide +kernel)
    have hmem := hprefix.mem (List.mem_append_right done (List.mem_singleton_self text))
    simpa using hmem

end Segmenter

end Marginalia
