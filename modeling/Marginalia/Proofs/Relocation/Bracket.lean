import Marginalia.Proofs.Relocation.Refilled

/-! # Which texts with balanced braces pass

Where braces balance and notes are whole, whether the pass succeeds is a matter of brackets.  A bracket
behind a command opens an argument if a look-ahead finds the bracket that closes it.  The look-ahead
stops at the first closing bracket, though this may be the one that closes an argument around it: in
`\a[\b[x]` both opening brackets are matched with the only closing one.  The inner argument takes it, and
the outer one stays open.

So the pass succeeds exactly if, wherever a bracket opens an argument, more closing brackets are left in
the group around it than arguments in brackets are already open there (`relocate_ok_iff_closers`).  The
look-ahead sees that there is one at least (`closes_iff_closers`); an argument in brackets that opens
directly inside a group is never an error.

The reason is one inequality.  The open groups wait for their closing delimiters, which are lexemes too
(`Skeleton.closing`): group by group, as many closing brackets must be left as are waited for.  A step
keeps this so (`Fed.act`), and no run ends well without it (`Skeleton.Reaches.closers_le`).
-/
namespace Marginalia.Relocation

open Text Latex

variable {contexts : Contexts} {lexeme : Lexeme} {piece rest text : Text} {items items' : List Lexeme}

/-! ### Closing brackets -/

/-- The closing brackets behind `depth` groups that close, as far as the group around them goes. -/
def closers : Nat → List Lexeme → Nat
  | _, [] => 0
  | depth, .left .brace :: lexemes => closers (depth + 1) lexemes
  | 0, .right .brace :: _ => 0
  | depth + 1, .right .brace :: lexemes => closers depth lexemes
  | 0, .right .bracket :: lexemes => closers 0 lexemes + 1
  | depth, _ :: lexemes => closers depth lexemes

@[simp] theorem closers_nil (depth : Nat) : closers depth [] = 0 := by
  rw [closers]

theorem closers_left (depth : Nat) (items : List Lexeme) :
    closers depth (.left .brace :: items) = closers (depth + 1) items := by
  rw [closers]

theorem closers_zero_right (items : List Lexeme) : closers 0 (.right .brace :: items) = 0 := by
  rw [closers]

theorem closers_succ_right (depth : Nat) (items : List Lexeme) :
    closers (depth + 1) (.right .brace :: items) = closers depth items := by
  rw [closers]

theorem closers_zero_rightBracket (items : List Lexeme) :
    closers 0 (.right .bracket :: items) = closers 0 items + 1 := by
  rw [closers]

theorem closers_succ_rightBracket (depth : Nat) (items : List Lexeme) :
    closers (depth + 1) (.right .bracket :: items) = closers (depth + 1) items := by
  rw [closers]
  all_goals simp

/-- Every other lexeme is passed over. -/
theorem closers_cons (hleft : lexeme ≠ .left .brace) (hright : ∀ delimiter, lexeme ≠ .right delimiter)
    (depth : Nat) (items : List Lexeme) : closers depth (lexeme :: items) = closers depth items := by
  rw [closers]
  · exact hleft
  · exact fun _ => hright .brace
  · exact fun _ _ => hright .brace
  · exact fun _ => hright .bracket

theorem closers_le_rightBracket (depth : Nat) (items : List Lexeme) :
    closers depth items ≤ closers depth (.right .bracket :: items) := by
  cases depth with
  | zero =>
    rw [closers_zero_rightBracket]
    omega
  | succ depth => exact Nat.le_of_eq (closers_succ_rightBracket depth items).symm

/-- A closing delimiter keeps the order of what stands behind it. -/
theorem closers_right_mono (h : ∀ depth, closers depth items ≤ closers depth items')
    (delimiter : Delimiter) (depth : Nat) :
    closers depth (.right delimiter :: items) ≤ closers depth (.right delimiter :: items') := by
  cases delimiter with
  | brace =>
    cases depth with
    | zero =>
      rw [closers_zero_right]
      omega
    | succ depth =>
      rw [closers_succ_right, closers_succ_right]
      exact h depth
  | bracket =>
    cases depth with
    | zero =>
      rw [closers_zero_rightBracket, closers_zero_rightBracket]
      exact Nat.succ_le_succ (h 0)
    | succ depth =>
      rw [closers_succ_rightBracket, closers_succ_rightBracket]
      exact h (depth + 1)

theorem Begins.lexemes_eq (h : Begins lexeme piece rest) :
    lexemes (piece ++ rest) = lexeme :: lexemes rest := by
  obtain ⟨c, text, htext, hread⟩ := h
  rw [htext, lexemes, hread]

theorem not_closes_nil (depth : Nat) : ¬ Closes depth [] := by
  cases depth with
  | zero =>
    rintro ⟨rest, hrest⟩
    rw [scanBracket] at hrest
    cases hrest
  | succ depth =>
    rintro ⟨rest, hrest, -⟩
    rw [closeGroup] at hrest
    cases hrest

/-- **The look-ahead finds a closing bracket** exactly if there is one in the group. -/
theorem closes_iff_closers (hverbatim : .verbatim ∉ lexemes text) (depth : Nat) :
    Closes depth text ↔ 0 < closers depth (lexemes text) := by
  fun_induction lexemes text generalizing depth with
  | case1 => simp [not_closes_nil]
  | case2 c text ih =>
    obtain ⟨hlexeme, hrest⟩ := not_or.mp (mt List.mem_cons.mpr hverbatim)
    have ih := ih hrest
    have hbegins := begins_read c text
    have hwhole := upTo_append ((read_suffix c text).trans (List.suffix_cons c text))
    rw [← hwhole, hbegins.closes_iff (Ne.symm hlexeme)]
    generalize (read c text).1 = lexeme at *
    unfold Lexeme.ClosesBehind
    split
    · rw [closers_left]
      exact ih _
    · simp [closers_zero_right]
    · rw [closers_succ_right]
      exact ih _
    · simp [closers_zero_rightBracket]
    · next hleft hright hright' hrightBracket =>
      rw [ih]
      by_cases hbracket : lexeme = .right .bracket
      · subst hbracket
        cases depth with
        | zero => exact absurd rfl (hrightBracket rfl)
        | succ depth => rw [closers_succ_rightBracket]
      · rw [closers_cons]
        · exact hleft
        · rintro (_ | _) rfl
          · cases depth with
            | zero => exact hright rfl rfl
            | succ depth => exact hright' depth rfl rfl
          · exact hbracket rfl

/-! ### What the open groups wait for -/

/-- The number of arguments in brackets that are open in the innermost group. -/
def State.openBrackets (state : State) : Nat :=
  (state.frames.takeWhile fun frame => frame.delimiter = .bracket).length

namespace Skeleton

variable {skeleton mid last : Skeleton}

/-- The delimiters that close the open groups, the innermost first. -/
def closing (skeleton : Skeleton) : List Lexeme :=
  skeleton.frames.map fun frame => .right frame.1

theorem closing_eq_nil : skeleton.closing = [] ↔ skeleton.frames = [] :=
  List.map_eq_nil_iff

theorem closing_eq {delimiter : Delimiter} {opener : Option String}
    {outer : List (Delimiter × Option String)} (h : skeleton.frames = (delimiter, opener) :: outer) :
    skeleton.closing = .right delimiter :: outer.map fun frame => .right frame.1 := by
  rw [closing, h, List.map_cons]

/-- Only a closing brace that meets no group in braces and a note that lacks an argument fail. -/
theorem exists_act (skeleton : Skeleton) (closes : Bool) (hbroken : lexeme ≠ .brokenNote)
    (hright : lexeme = .right .brace → ∃ outer, skeleton.closing = .right .brace :: outer) :
    ∃ mid, skeleton.act lexeme closes = some mid := by
  cases lexeme with
  | brokenNote => exact absurd rfl hbroken
  | left delimiter => cases delimiter <;> exact ⟨_, rfl⟩
  | blanks paragraph => cases paragraph <;> exact ⟨_, rfl⟩
  | right delimiter =>
    unfold act close
    cases hframes : skeleton.frames with
    | nil =>
      cases delimiter with
      | brace =>
        obtain ⟨outer, houter⟩ := hright rfl
        rw [closing_eq_nil.mpr hframes] at houter
        cases houter
      | bracket => exact ⟨_, rfl⟩
    | cons frame outer =>
      obtain ⟨opened, opener⟩ := frame
      dsimp only
      by_cases hopened : opened = delimiter
      · exact ⟨_, if_pos hopened⟩
      · rw [if_neg hopened]
        cases delimiter with
        | brace =>
          obtain ⟨outer', houter⟩ := hright rfl
          rw [closing_eq hframes] at houter
          exact absurd (Lexeme.right.inj (List.cons.inj houter).1) hopened
        | bracket => exact ⟨_, rfl⟩
  | _ => exact ⟨_, rfl⟩

/-- What a lexeme does to the groups that are open: it opens one, it closes the innermost one, or it
leaves them as they are.  A closing bracket is left alone where no argument in brackets is open. -/
theorem act_cases {closes : Bool} (h : skeleton.act lexeme closes = some mid) :
    (lexeme = .left .brace ∧ mid.closing = .right .brace :: skeleton.closing) ∨
    (lexeme = .left .bracket ∧ skeleton.pending.isSome = true ∧ closes = true ∧
      mid.closing = .right .bracket :: skeleton.closing) ∨
    (∃ delimiter, lexeme = .right delimiter ∧ skeleton.closing = .right delimiter :: mid.closing) ∨
    (lexeme = .right .bracket ∧ mid.closing = skeleton.closing ∧ closers 0 skeleton.closing = 0) ∨
    lexeme ≠ .left .brace ∧ (∀ delimiter, lexeme ≠ .right delimiter) ∧
      mid.closing = skeleton.closing := by
  cases lexeme with
  | left delimiter =>
    cases delimiter with
    | brace =>
      obtain rfl := Option.some.inj h
      exact .inl ⟨rfl, rfl⟩
    | bracket =>
      unfold act at h
      by_cases hopens : (skeleton.pending.isSome && closes) = true
      · rw [if_pos hopens] at h
        obtain rfl := Option.some.inj h
        obtain ⟨hpending, hcloses⟩ := Bool.and_eq_true_iff.mp hopens
        exact .inr (.inl ⟨rfl, hpending, hcloses, rfl⟩)
      · rw [if_neg hopens] at h
        obtain rfl := Option.some.inj h
        exact .inr (.inr (.inr (.inr ⟨by decide, by simp, rfl⟩)))
  | right delimiter =>
    unfold act close at h
    cases hframes : skeleton.frames with
    | nil =>
      rw [hframes] at h
      cases delimiter with
      | brace => cases h
      | bracket =>
        obtain rfl := Option.some.inj h
        -- A bracket where no group is open is ordinary text.
        refine .inr (.inr (.inr (.inl ⟨rfl, rfl, ?_⟩)))
        rw [closing_eq_nil.mpr hframes, closers_nil]
    | cons frame outer =>
      obtain ⟨opened, opener⟩ := frame
      rw [hframes] at h
      dsimp only at h
      by_cases hopened : opened = delimiter
      · rw [if_pos hopened] at h
        obtain rfl := Option.some.inj h
        refine .inr (.inr (.inl ⟨delimiter, rfl, ?_⟩))
        rw [closing_eq hframes, hopened]
        rfl
      · rw [if_neg hopened] at h
        cases delimiter with
        | brace => cases h
        | bracket =>
          obtain rfl := Option.some.inj h
          -- So is one inside braces: behind a brace that is waited for, no bracket counts.
          refine .inr (.inr (.inr (.inl ⟨rfl, rfl, ?_⟩)))
          rw [closing_eq hframes]
          cases opened with
          | brace => exact closers_zero_right _
          | bracket => exact absurd rfl hopened
  | brokenNote => cases h
  | blanks paragraph =>
    refine .inr (.inr (.inr (.inr ⟨by simp, by simp, ?_⟩)))
    cases paragraph <;> (obtain rfl := Option.some.inj h; rfl)
  | _ =>
    refine .inr (.inr (.inr (.inr ⟨by simp, by simp, ?_⟩)))
    obtain rfl := Option.some.inj h
    rfl

/-- A run that ends with no group open has had enough closing brackets all along. -/
theorem Reaches.closers_le (h : skeleton.Reaches text last []) (hframes : last.frames = []) :
    ∀ depth, closers depth skeleton.closing ≤ closers depth (lexemes text) := by
  generalize hnil : ([] : Text) = left at h
  induction h with
  | refl =>
    intro depth
    rw [closing_eq_nil.mpr hframes, closers_nil]
    omega
  | @step skeleton mid last lexeme piece left rest hbegins hact _ ih =>
    have ih := ih hframes hnil
    intro depth
    rw [hbegins.lexemes_eq]
    rcases act_cases hact with ⟨rfl, hmid⟩ | ⟨rfl, -, -, hmid⟩ | ⟨delimiter, rfl, hskeleton⟩ |
      ⟨rfl, hmid, -⟩ | ⟨hleft, hright, hmid⟩
    · have hstep := ih (depth + 1)
      rwa [hmid, closers_succ_right, ← closers_left] at hstep
    · have hstep := ih depth
      rw [hmid] at hstep
      rw [closers_cons (by decide) (by simp)]
      exact Nat.le_trans (closers_le_rightBracket depth _) hstep
    · rw [hskeleton]
      exact closers_right_mono ih delimiter depth
    · rw [← hmid]
      exact Nat.le_trans (ih depth) (closers_le_rightBracket depth _)
    · rw [closers_cons hleft hright, ← hmid]
      exact ih depth

/-- A run that ends goes on from every place that it comes to. -/
theorem Reaches.goes_on {left : Text} (h : skeleton.Reaches text mid left)
    (hlast : skeleton.Reaches text last []) : mid.Reaches left last [] := by
  induction h with
  | refl => exact hlast
  | step hbegins hact _ ih =>
    obtain ⟨mid', hact', hrest⟩ := hlast.exists_act hbegins
    obtain rfl := Option.some.inj (hact.symm.trans hact')
    exact ih hrest

/-- What is left of a text is read as it is read in the text. -/
theorem Reaches.lexemes_suffix {left : Text} (h : skeleton.Reaches text mid left) :
    lexemes left <:+ lexemes text := by
  induction h with
  | refl => exact List.suffix_refl _
  | step hbegins _ _ ih =>
    rw [hbegins.lexemes_eq]
    exact ih.trans (List.suffix_cons _ _)

/-- Braces balance around the text, and in each group as many closing brackets are left as its arguments
in brackets wait for. -/
structure Fed (skeleton : Skeleton) (text : Text) : Prop where
  braces : closeGroup (skeleton.closing.count (.right .brace) + 1) text = .unclosed 1
  brackets : ∀ depth, closers depth skeleton.closing ≤ closers depth (lexemes text)

/-- A closing brace meets a group in braces: no argument in brackets can be open there. -/
theorem Fed.exists_right (h : Fed skeleton (piece ++ rest))
    (hbegins : Begins (.right .brace) piece rest) : ∃ outer, skeleton.closing = .right .brace :: outer := by
  have hbrackets := h.brackets 0
  rw [hbegins.lexemes_eq, closers_zero_right] at hbrackets
  cases hframes : skeleton.frames with
  | nil =>
    have hbraces := h.braces
    rw [closing_eq_nil.mpr hframes, hbegins.right_eq, List.count_nil] at hbraces
    simp [Delimiter.right, closeGroup] at hbraces
  | cons frame outer =>
    obtain ⟨opened, opener⟩ := frame
    cases opened with
    | brace => exact ⟨_, closing_eq hframes⟩
    | bracket =>
      rw [closing_eq hframes, closers_zero_rightBracket] at hbrackets
      omega

/-- **A lexeme keeps the inequality**, if a bracket that opens an argument leaves enough closing
brackets. -/
theorem Fed.act (h : Fed skeleton (piece ++ rest)) (hbegins : Begins lexeme piece rest)
    (hverbatim : lexeme ≠ .verbatim) {closes : Bool} (hact : skeleton.act lexeme closes = some mid)
    (hopens : lexeme = .left .bracket → skeleton.pending.isSome = true → closes = true →
      closers 0 skeleton.closing < closers 0 (lexemes rest)) : Fed mid rest := by
  -- Only braces change the depth of a scanned group; every other lexeme is passed over.
  have hpass (hleft : lexeme ≠ .left .brace) (hright : lexeme ≠ .right .brace) (depth : Nat) :
      closeGroup (depth + 1) (piece ++ rest) = closeGroup (depth + 1) rest :=
    hbegins.closeGroup_eq hverbatim (Nat.succ_pos depth) hleft hright
  obtain ⟨hbraces, hbrackets⟩ := h
  rw [hbegins.lexemes_eq] at hbrackets
  rcases act_cases hact with ⟨rfl, hmid⟩ | ⟨rfl, hpending, hcloses, hmid⟩ | ⟨delimiter, rfl, hskeleton⟩ |
    ⟨rfl, hmid, hnone⟩ | ⟨hleft, hright, hmid⟩
  · refine ⟨?_, fun depth => ?_⟩
    · rw [hbegins.left_eq, List.singleton_append, Delimiter.left, closeGroup] at hbraces
      rw [hmid, List.count_cons_self]
      exact hbraces
    · rw [hmid]
      -- The new brace is waited for first: behind it the bounds are those of one level further in.
      cases depth with
      | zero =>
        rw [closers_zero_right]
        omega
      | succ depth =>
        rw [closers_succ_right, ← closers_left]
        exact hbrackets depth
  · refine ⟨?_, fun depth => ?_⟩
    · rw [hpass (by decide) (by decide)] at hbraces
      rw [hmid, List.count_cons_of_ne (by decide)]
      exact hbraces
    · have hstep := hbrackets depth
      rw [closers_cons (by decide) (by simp)] at hstep
      rw [hmid]
      cases depth with
      | zero =>
        -- One bracket more is waited for, which is the one that the look ahead has found.
        rw [closers_zero_rightBracket]
        exact hopens rfl hpending hcloses
      | succ depth =>
        rw [closers_succ_rightBracket]
        exact hstep
  · rw [hskeleton] at hbraces hbrackets
    cases delimiter with
    | brace =>
      refine ⟨?_, fun depth => ?_⟩
      · rw [hbegins.right_eq, List.singleton_append, Delimiter.right, List.count_cons_self,
          closeGroup_right (Nat.succ_pos _)] at hbraces
        exact hbraces
      · have hstep := hbrackets (depth + 1)
        rwa [closers_succ_right, closers_succ_right] at hstep
    | bracket =>
      refine ⟨?_, fun depth => ?_⟩
      · rw [hpass (by decide) (by decide), List.count_cons_of_ne (by decide)] at hbraces
        exact hbraces
      · have hstep := hbrackets depth
        cases depth with
        | zero =>
          rw [closers_zero_rightBracket, closers_zero_rightBracket] at hstep
          omega
        | succ depth => rwa [closers_succ_rightBracket, closers_succ_rightBracket] at hstep
  · rw [hpass (by decide) (by decide), ← hmid] at hbraces
    refine ⟨hbraces, fun depth => ?_⟩
    rw [hmid]
    cases depth with
    | zero =>
      rw [hnone]
      omega
    | succ depth =>
      rw [← closers_succ_rightBracket]
      exact hbrackets (depth + 1)
  · rw [hpass hleft (hright .brace), ← hmid] at hbraces
    refine ⟨hbraces, fun depth => ?_⟩
    have hstep := hbrackets depth
    rw [closers_cons hleft hright] at hstep
    rw [hmid]
    exact hstep

/-- At the end of the text nothing is waited for. -/
theorem Fed.frames_eq_nil (h : Fed skeleton []) : skeleton.frames = [] := by
  obtain ⟨hbraces, hbrackets⟩ := h
  cases hframes : skeleton.frames with
  | nil => rfl
  | cons frame outer =>
    obtain ⟨opened, opener⟩ := frame
    rw [closing_eq hframes] at hbraces hbrackets
    cases opened with
    | brace =>
      rw [List.count_cons_self, closeGroup] at hbraces
      have hcount := Closing.unclosed.inj hbraces
      omega
    | bracket =>
      have hzero := hbrackets 0
      rw [closers_zero_rightBracket, lexemes, closers_nil] at hzero
      omega

/-- A run finds its way to the end of the text if every bracket that opens an argument on it leaves
enough closing brackets. -/
theorem Fed.exists_reaches (h : Fed skeleton text) (hverbatim : .verbatim ∉ lexemes text)
    (hbroken : .brokenNote ∉ lexemes text)
    (hopens : ∀ mid rest, skeleton.Reaches text mid ('[' :: rest) → mid.pending.isSome = true →
      bracketCloses rest = true → closers 0 mid.closing < closers 0 (lexemes rest)) :
    ∃ last, skeleton.Reaches text last [] ∧ last.frames = [] := by
  fun_induction lexemes text generalizing skeleton with
  | case1 => exact ⟨skeleton, .refl _ _, h.frames_eq_nil⟩
  | case2 c text ih =>
    obtain ⟨hlexeme, hverbatim⟩ := not_or.mp (mt List.mem_cons.mpr hverbatim)
    obtain ⟨hwhole, hbroken⟩ := not_or.mp (mt List.mem_cons.mpr hbroken)
    have hbegins := begins_read c text
    have htext := upTo_append ((read_suffix c text).trans (List.suffix_cons c text))
    have hfirst : (read c text).1 = .left .bracket → c :: text = '[' :: (read c text).2 := by
      intro heq
      rw [heq] at hbegins
      rw [← htext, hbegins.left_eq]
      rfl
    rw [← htext] at h
    have hbrace : (read c text).1 = .right .brace →
        ∃ outer, skeleton.closing = .right .brace :: outer := by
      intro heq
      rw [heq] at hbegins
      exact h.exists_right hbegins
    obtain ⟨mid, hact⟩ := exists_act skeleton (bracketCloses (read c text).2) (Ne.symm hwhole) hbrace
    have hmid := h.act hbegins (Ne.symm hlexeme) hact fun heq hpending hcloses =>
      hopens skeleton _ (hfirst heq ▸ .refl skeleton (c :: text)) hpending hcloses
    have hstep {later : Skeleton} {left : Text} (hlater : mid.Reaches (read c text).2 later left) :
        skeleton.Reaches (c :: text) later left := by
      have hreaches := Reaches.step hbegins hact hlater
      rwa [htext] at hreaches
    obtain ⟨last, hlast, hframes⟩ := ih hmid hverbatim hbroken
      fun later left hlater => hopens later left (hstep hlater)
    exact ⟨last, hstep hlast, hframes⟩

end Skeleton

theorem State.closers_closing (state : State) :
    closers 0 state.skeleton.closing = state.openBrackets := by
  unfold State.openBrackets Skeleton.closing State.skeleton
  dsimp only
  induction state.frames with
  | nil => simp
  | cons frame outer ih =>
    obtain ⟨delimiter, opener, offset⟩ := frame
    cases delimiter with
    | brace => exact closers_zero_right _
    | bracket =>
      rw [List.map_cons, List.map_cons, closers_zero_rightBracket, ih]
      rfl

/-- **Where braces balance and notes are whole, the pass succeeds if and only if** every bracket that
opens an argument directly inside other arguments in brackets leaves more closing brackets, in the group
around them all, than there are such arguments. -/
theorem relocate_ok_iff_closers (contexts : Contexts) (text : Text)
    (hbraces : closeGroup 1 text = .unclosed 1) (hverbatim : .verbatim ∉ lexemes text)
    (hnotes : .brokenNote ∉ lexemes text) :
    (∃ out, (relocate contexts text).result = .ok out) ↔
      ∀ state rest, Reaches contexts .start text state ('[' :: rest) →
        state.pending.isSome = true → bracketCloses rest = true → 0 < state.openBrackets →
        state.openBrackets < closers 0 (lexemes rest) := by
  have hbegins (rest : Text) : Begins (.left .bracket) ['['] rest := (@Lexes.left .bracket rest).begins
  rw [relocate_ok_iff_skeleton]
  constructor
  · rintro ⟨last, hlast, hframes⟩ state rest hreaches hpending hcloses -
    obtain ⟨mid, hact, hrest⟩ := (hreaches.skeleton.goes_on hlast).exists_act (hbegins rest)
    have hopened : (state.skeleton.openFrame .bracket) = mid := by
      rw [Skeleton.act, hcloses, Bool.and_true] at hact
      exact Option.some.inj ((congrArg some (if_pos hpending)).symm.trans hact)
    have hle := hrest.closers_le hframes 0
    rw [← hopened] at hle
    have hclosing : (state.skeleton.openFrame .bracket).closing =
        .right .bracket :: state.skeleton.closing := rfl
    rwa [hclosing, closers_zero_rightBracket, State.closers_closing] at hle
  · intro hopens
    have hfed : Skeleton.start.Fed text := by
      refine ⟨hbraces, fun depth => ?_⟩
      rw [Skeleton.closing_eq_nil.mpr rfl, closers_nil]
      omega
    refine hfed.exists_reaches hverbatim hnotes fun mid rest hmid hpending hcloses => ?_
    obtain ⟨state, hstate, rfl⟩ :=
      hmid.lift contexts (show State.start.skeleton = Skeleton.start from rfl)
    rw [State.closers_closing]
    by_cases hnested : 0 < state.openBrackets
    · exact hopens state rest hstate hpending hcloses hnested
    · -- The bracket that the look-ahead finds is not waited for.
      have hread : .verbatim ∉ lexemes ('[' :: rest) :=
        fun hmem => hverbatim (hmid.lexemes_suffix.subset hmem)
      have hsplit := (hbegins rest).lexemes_eq
      rw [List.singleton_append] at hsplit
      rw [hsplit] at hread
      have hcloser := (closes_iff_closers (not_or.mp (mt List.mem_cons.mpr hread)).2 0).mp
        ((closes_zero_iff rest).mpr hcloses)
      omega

/-- An argument inside another, with brackets that close and open nothing behind them. -/
theorem relocate_ok_iff_closers_nested :
    let text := "\\a[\\b[y]z] ] [ \x7b\\c[\x7d".toList
    closeGroup 1 text = .unclosed 1 ∧ .verbatim ∉ lexemes text ∧ .brokenNote ∉ lexemes text ∧
      ∀ state rest, Reaches .standard .start text state ('[' :: rest) →
        state.pending.isSome = true → bracketCloses rest = true → 0 < state.openBrackets →
        state.openBrackets < closers 0 (lexemes rest) := by
  intro text
  have hbraces : closeGroup 1 text = .unclosed 1 := by decide +kernel
  have hverbatim : .verbatim ∉ lexemes text := by decide +kernel
  have hnotes : .brokenNote ∉ lexemes text := by decide +kernel
  have hpasses : (relocate .standard text).result = .ok text := by decide +kernel
  exact ⟨hbraces, hverbatim, hnotes,
    (relocate_ok_iff_closers .standard text hbraces hverbatim hnotes).mp ⟨text, hpasses⟩⟩

/-- **Balanced braces are not enough**: one closing bracket is promised to two arguments. -/
theorem not_relocate_ok_of_balanced : ¬ ∀ (contexts : Contexts) (text : Text),
    closeGroup 1 text = .unclosed 1 → .verbatim ∉ lexemes text → .brokenNote ∉ lexemes text →
      ∃ out, (relocate contexts text).result = .ok out := by
  intro h
  have hfails : (relocate .standard "\\a[\\b[x]".toList).result = .error (.unclosedGroup 1 2) := by
    decide +kernel
  obtain ⟨out, hout⟩ := h .standard "\\a[\\b[x]".toList (by decide +kernel) (by decide +kernel)
    (by decide +kernel)
  rw [hfails] at hout
  cases hout

end Marginalia.Relocation
