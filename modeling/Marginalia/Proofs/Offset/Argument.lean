import Marginalia.Proofs.Offset.Scan
import Marginalia.Segment

/-! # Arguments and mathematics by positions

The segmenter's own scanners, from a position on: the bracketed arguments of a command, the
arguments that hold no text, what a definition defines, and the end of mathematics.  At the position
of a rest each gives the position of what the segmenter leaves (`optionalArgs_position`,
`mathClose_position`, `arguments_position`).

An argument that holds no text is a group, so its scan begins with one open group; what it hands
over as still open is positive, too (`one_le_of_commandArguments`).
-/
namespace Marginalia.Offset

open Text Latex Segmenter

variable {text rest : Text} {c : Char}

/-! ### Bracketed arguments -/

/-- A round of reading bracketed arguments. -/
def optionalRound (text : Text) (_ : Unit) (i : Nat) : Checked (Round Unit Nat) := do
  let j ← skipWs text i
  if (← sliceFrom text j).head? = some '[' then
    match ← bracketEnd text j with
    | some stop => return .next () stop
    | none => return .done i
  else return .done i

/-- The position behind the bracketed arguments at a position. -/
def optionalArgs (text : Text) (i : Nat) : Checked Nat :=
  loop text.byteLength (optionalRound text) () i

theorem optionalRound_position (h : rest <:+ text) :
    optionalRound text () (position text rest) =
      .ok (match readBracket? (skipBlanks rest) with
        | some after => .next () (position text after)
        | none => .done (position text rest)) := by
  have hskip : skipBlanks rest <:+ text := (skipBlanks_suffix rest).trans h
  rw [optionalRound, skipWs_position h, ok_bind, sliceFrom_position hskip, ok_bind]
  by_cases hhead : (skipBlanks rest).head? = some '['
  · obtain ⟨inner, hinner⟩ := List.head?_eq_some_iff.mp hhead
    rw [if_pos hhead, hinner, bracketEnd_position (hinner ▸ hskip), ok_bind]
    cases readBracket? ('[' :: inner) <;> rfl
  · have hnone : readBracket? (skipBlanks rest) = none := by
      unfold readBracket?
      split
      · next inner hinner => exact absurd (hinner ▸ rfl) hhead
      · rfl
    rw [if_neg hhead, hnone]
    rfl

theorem optionalArgs_position (h : rest <:+ text) :
    optionalArgs text (position text rest) = .ok (position text (optionalArguments rest)) := by
  rw [optionalArgs]
  fun_induction optionalArguments rest with
  | case1 rest after hread ih =>
    have hskip := skipBlanks_suffix rest
    have hafter := (readBracket?_suffix hread).trans hskip
    have hlength := Nat.lt_of_lt_of_le (readBracket?_length hread) hskip.length_le
    have hround : optionalRound text () (position text rest) =
        .ok (.next () (position text after)) := by
      rw [optionalRound_position h, hread]
    rw [loop_next_position h hafter hlength hround]
    exact ih (hafter.trans h)
  | case2 rest hread =>
    refine loop_done ?_
    rw [optionalRound_position h, hread]

/-! ### Mathematics -/

/-- The control sequence ends the mathematics. -/
def closes (delimiter : MathDelimiter) (read : Command) : Bool :=
  (match delimiter with
    | .paren => read.name == [')']
    | .bracket => read.name == [']']
    | _ => false) && !read.isWord

theorem closes_ofRead (delimiter : MathDelimiter) (text : Text) (read : Control × Text) :
    closes delimiter (.ofRead text read) = true ↔
      delimiter.closer?.map Control.symbol = some read.1 := by
  obtain ⟨control, rest⟩ := read
  cases control with
  | word name => cases delimiter <;> simp [closes, Command.ofRead, MathDelimiter.closer?]
  | bare => cases delimiter <;> simp [closes, Command.ofRead, MathDelimiter.closer?]
  | symbol c =>
    cases delimiter <;> simp only [closes, Command.ofRead, MathDelimiter.closer?] <;> simp <;>
      exact eq_comm

/-- What a dollar sign at a position does to mathematics. -/
def dollarRound (text : Text) (delimiter : MathDelimiter) (i : Nat) : Round Unit (Option Nat) :=
  match delimiter with
  | .dollar => .done (some (i + 1))
  | .doubleDollar =>
    if byteAt? text (i + 1) = some '$' then .done (some (i + 2)) else .next () (i + 1)
  | _ => .next () (i + 1)

/-- A round of the search for the end of mathematics. -/
def mathRound (text : Text) (delimiter : MathDelimiter) (_ : Unit) (i : Nat) :
    Checked (Round Unit (Option Nat)) :=
  match byteAt? text i with
  | some '\\' => do
    let read ← commandAt text i
    if closes delimiter read then return .done (some read.stop) else return .next () read.stop
  | some '%' => return .next () (← commentEnd text i)
  | some '$' => return dollarRound text delimiter i
  | some _ => return .next () (i + 1)
  | none => return .done none

/-- The position behind the end of mathematics. -/
def mathClose (text : Text) (i : Nat) (delimiter : MathDelimiter) : Checked (Option Nat) :=
  loop text.byteLength (mathRound text delimiter) () i

theorem mathRound_of_ne {delimiter : MathDelimiter} {i : Nat} {b : Char}
    (hb : byteAt? text i = some b) (hescape : b ≠ '\\') (hcomment : b ≠ '%') (hdollar : b ≠ '$') :
    mathRound text delimiter () i = .ok (.next () (i + 1)) := by
  rw [mathRound, hb]
  split
  · exact absurd (Option.some.inj ‹_›) hescape
  · exact absurd (Option.some.inj ‹_›) hcomment
  · exact absurd (Option.some.inj ‹_›) hdollar
  · rfl
  · cases ‹some b = none›

theorem mathRound_escape {delimiter : MathDelimiter} (h : '\\' :: rest <:+ text) :
    mathRound text delimiter () (position text ('\\' :: rest)) =
      .ok (if delimiter.closer?.map Control.symbol = some (readControl rest).1 then
        .done (some (position text (readControl rest).2))
      else .next () (position text (readControl rest).2)) := by
  rw [mathRound, byteAt?_position h (by decide)]
  change (commandAt text _ >>= _) = _
  rw [commandAt_position h, ok_bind, stop_ofRead]
  by_cases hclose : delimiter.closer?.map Control.symbol = some (readControl rest).1
  · rw [if_pos hclose, if_pos ((closes_ofRead _ _ _).mpr hclose)]
    rfl
  · rw [if_neg hclose, if_neg fun heq => hclose ((closes_ofRead _ _ _).mp heq)]
    rfl

theorem mathClose_position (delimiter : MathDelimiter) (h : rest <:+ text) :
    mathClose text (position text rest) delimiter =
      .ok ((delimiter.close? rest).map (position text)) := by
  rw [mathClose]
  fun_induction MathDelimiter.close? delimiter rest with
  | case1 =>
    refine loop_done ?_
    rw [mathRound, byteAt?_position_nil]
    rfl
  | case2 rest hclose =>
    exact loop_done (by rw [mathRound_escape h, if_pos hclose]; rfl)
  | case3 rest hclose ih =>
    have hread := readControl_suffix rest
    have hround : mathRound text delimiter () (position text ('\\' :: rest)) =
        .ok (.next () (position text (readControl rest).2)) := by
      rw [mathRound_escape h, if_neg hclose]
    rw [loop_next_position h (hread.trans (List.suffix_cons _ _))
      (Nat.lt_succ_of_le hread.length_le) hround]
    exact ih ((hread.trans (List.suffix_cons _ _)).trans h)
  | case4 rest ih =>
    have hdrop := (dropComment_suffix rest).trans (List.suffix_cons '%' rest)
    rw [loop_comment h (by rw [mathRound, byteAt?_position h (by decide)]; rfl)]
    exact ih (hdrop.trans h)
  | case5 rest hdollar =>
    refine loop_done ?_
    rw [mathRound, byteAt?_position h (by decide), hdollar, Option.map_some, ← position_succ h rfl]
    rfl
  | case6 rest hdollar htwo =>
    obtain ⟨rfl, hhead⟩ := htwo
    obtain ⟨rest, rfl⟩ := List.head?_eq_some_iff.mp hhead
    have hrest : '$' :: rest <:+ text := (List.suffix_cons _ _).trans h
    refine loop_done ?_
    rw [mathRound, byteAt?_position h (by decide)]
    dsimp only [dollarRound]
    rw [position_succ h rfl, byteAt?_position hrest (by decide), if_pos rfl, List.tail_cons,
      Option.map_some, ← position_succ hrest rfl, ← position_succ h rfl]
    rfl
  | case7 rest hdollar htwo ih =>
    have hrest : rest <:+ text := (List.suffix_cons _ _).trans h
    have hround : mathRound text delimiter () (position text ('$' :: rest)) =
        .ok (.next () (position text ('$' :: rest) + 1)) := by
      rw [mathRound, byteAt?_position h (by decide)]
      -- A single dollar: displayed mathematics ends at two, the other kinds do not end at it.
      cases delimiter with
      | dollar => exact absurd rfl hdollar
      | doubleDollar =>
        dsimp only [dollarRound]
        rw [position_succ h rfl, if_neg fun hbyte => htwo ⟨rfl, ?_⟩]
        · rfl
        · exact (byteAt?_position_iff hrest (by decide)).mp hbyte
      | paren => rfl
      | bracket => rfl
    rw [loop_succ h rfl hround]
    exact ih hrest
  | case8 c rest hescape hcomment hdollar ih =>
    -- The bytes of a character of several bytes are all large, so none of them is a delimiter.
    have hround (i : Nat) (b : Char) (hb : byteAt? text i = some b)
        (hbyte : b = c ∨ 128 ≤ b.toNat) :
        mathRound text delimiter () i = .ok (.next () (i + 1)) := by
      rcases hbyte with rfl | hlarge
      · exact mathRound_of_ne hb hescape hcomment hdollar
      · refine mathRound_of_ne hb ?_ ?_ ?_ <;> rintro rfl <;> exact absurd hlarge (by decide)
    rw [loop_skip h hround]
    exact ih ((List.suffix_cons _ _).trans h)

/-! ### Stars and definitions -/

/-- The position behind a star. -/
def starEnd (text : Text) (i : Nat) : Checked Nat := do
  if (← sliceFrom text i).head? = some '*' then return i + 1 else return i

theorem starEnd_position (h : rest <:+ text) :
    starEnd text (position text rest) = .ok (position text (dropStar rest)) := by
  rw [starEnd, sliceFrom_position h, ok_bind]
  by_cases hhead : rest.head? = some '*'
  · obtain ⟨body, rfl⟩ := List.head?_eq_some_iff.mp hhead
    rw [if_pos hhead, position_succ h rfl]
    rfl
  · have hstar : dropStar rest = rest := by
      unfold dropStar
      split
      · exact absurd rfl hhead
      · rfl
    rw [if_neg hhead, hstar]
    rfl

/-- A mark of a parameter: a number sign or a digit. -/
def isParameter (c : Char) : Bool :=
  c == '#' || c.isDigit

/-- The position behind the control sequence that a definition defines. -/
def definedEnd (text : Text) (i : Nat) : Checked Nat := do
  let j ← skipWs text i
  if (← sliceFrom text j).head? = some '\\' then return (← commandAt text j).stop else return i

/-- The position behind the control sequence that a definition defines and the marks of its
parameters. -/
def definitionEnd (text : Text) (i : Nat) : Checked Nat := do
  let stop ← definedEnd text i
  return stop + countWhile isParameter (← sliceFrom text stop)

theorem lt_of_isParameter (h : isParameter c = true) : c.toNat < 128 := by
  rw [isParameter, Bool.or_eq_true, beq_iff_eq] at h
  rcases h with rfl | hdigit
  · decide
  · simp only [Char.isDigit, Bool.and_eq_true, decide_eq_true_iff, ge_iff_le,
      UInt32.le_iff_toNat_le] at hdigit
    have hval : c.toNat = c.val.toNat := rfl
    have hnine : '9'.val.toNat = 57 := rfl
    omega

theorem definitionEnd_position (h : rest <:+ text) :
    definitionEnd text (position text rest) = .ok (position text (definitionHead rest)) := by
  have hskip : skipBlanks rest <:+ text := (skipBlanks_suffix rest).trans h
  have hdefined : ∃ after, after <:+ text ∧ definedEnd text (position text rest) =
      .ok (position text after) ∧ definitionHead rest = after.dropWhile isParameter := by
    rw [definedEnd, skipWs_position h, ok_bind, sliceFrom_position hskip, ok_bind]
    by_cases hhead : (skipBlanks rest).head? = some '\\'
    · obtain ⟨name, hname⟩ := List.head?_eq_some_iff.mp hhead
      rw [hname] at hskip
      refine ⟨(readControl name).2,
        ((readControl_suffix name).trans (List.suffix_cons _ _)).trans hskip, ?_, ?_⟩
      · rw [if_pos hhead, hname, commandAt_position hskip, ok_bind, stop_ofRead, pure_eq_ok]
      · rw [definitionHead, hname]
        rfl
    · refine ⟨rest, h, ?_, ?_⟩
      · rw [if_neg hhead, pure_eq_ok]
      · unfold definitionHead
        split
        · next name hname => exact absurd (hname ▸ rfl) hhead
        · rfl
  obtain ⟨after, hafter, hstop, hhead⟩ := hdefined
  have hsplit : after.takeWhile isParameter ++ after.dropWhile isParameter <:+ text := by
    rwa [List.takeWhile_append_dropWhile]
  have hmarks := position_of_append hsplit
  rw [List.takeWhile_append_dropWhile] at hmarks
  rw [definitionEnd, hstop, ok_bind, sliceFrom_position hafter, ok_bind,
    countWhile_eq fun c => lt_of_isParameter, hhead, hmarks, pure_eq_ok]

/-! ### Arguments that hold no text -/

/-- A round of reading arguments that hold no text, of which `done` have been read and `count` are
to be read; the beginning of an environment has more of them, depending on its name. -/
def argumentRound (text name : Text) (progress : Nat × Nat) (i : Nat) :
    Checked (Round (Nat × Nat) (Except Nat Nat)) := do
  let (done, count) := progress
  if done < count then
    let j ← optionalArgs text (← skipWs text i)
    if (← sliceFrom text j).head? = some '{' then
      match ← closeGroup text (j + 1) 1 with
      | .ok stop =>
        if done = 0 ∧ name = "begin".toList then
          let env ← slice text (j + 1) (← sub stop 1)
          return .next (done + 1, count + beginArgumentCount (String.ofList env)) stop
        else return .next (done + 1, count) stop
      | .error depth => return .done (.error depth)
    else return .done (.ok i)
  else return .done (.ok i)

/-- The position behind up to `count` arguments that hold no text, or the number of groups open at
the end of the text. -/
def arguments (text name : Text) (count i : Nat) : Checked (Except Nat Nat) :=
  loop text.byteLength (argumentRound text name) (0, count) i

/-- An argument that holds no text is missing, or it is a group, which may not close. -/
theorem rawArgument_cases (text : Text) :
    ((optionalArguments (skipBlanks text)).head? ≠ some '{' ∧ rawArgument text = .absent) ∨
    (∃ env after, optionalArguments (skipBlanks text) = '{' :: (env ++ '}' :: after) ∧
      Latex.closeGroup 1 (env ++ '}' :: after) = .closed after ∧
      rawArgument text = .read env after) ∨
    ∃ body depth, optionalArguments (skipBlanks text) = '{' :: body ∧
      Latex.closeGroup 1 body = .unclosed depth ∧ rawArgument text = .unclosed depth := by
  unfold rawArgument
  split
  · next body hbody =>
    cases hclose : Latex.closeGroup 1 body with
    | unclosed depth => exact .inr (.inr ⟨body, depth, hbody, hclose, rfl⟩)
    | closed after =>
      obtain ⟨env, rfl⟩ := exists_of_closeGroup hclose
      have hread : (upTo (env ++ '}' :: after) after).dropLast = env := by
        rw [List.append_cons, upTo_append_right, List.dropLast_concat]
      refine .inr (.inl ⟨env, after, hbody, hclose, ?_⟩)
      dsimp only
      rw [hread]
  · next hbody =>
    refine .inl ⟨fun hhead => ?_, rfl⟩
    obtain ⟨body, heq⟩ := List.head?_eq_some_iff.mp hhead
    exact hbody body heq

theorem argumentRound_position (name : Text) {done count : Nat} (hcount : done < count)
    (h : rest <:+ text) :
    argumentRound text name (done, count) (position text rest) =
      .ok (match rawArgument rest with
        | .absent => .done (.ok (position text rest))
        | .read env after =>
          .next (done + 1, if done = 0 ∧ name = "begin".toList then
            count + beginArgumentCount (String.ofList env) else count) (position text after)
        | .unclosed depth => .done (.error depth)) := by
  have hskip : skipBlanks rest <:+ text := (skipBlanks_suffix rest).trans h
  have hoptional := (optionalArguments_suffix (skipBlanks rest)).trans hskip
  rw [argumentRound, if_pos hcount, skipWs_position h, ok_bind, optionalArgs_position hskip,
    ok_bind,
    sliceFrom_position hoptional, ok_bind]
  rcases rawArgument_cases rest with ⟨hhead, hraw⟩ | ⟨env, after, hbody, hclose, hraw⟩ |
    ⟨body, depth, hbody, hclose, hraw⟩
  · rw [if_neg hhead, hraw]
    rfl
  · rw [hbody] at hoptional
    have hinner : env ++ '}' :: after <:+ text := (List.suffix_cons _ _).trans hoptional
    have hbrace : '}' :: after <:+ text := (List.suffix_append _ _).trans hinner
    rw [hbody, if_pos List.head?_cons, position_succ hoptional rfl,
      closeGroup_position (Nat.le_refl 1) hinner, ok_bind, hclose, hraw]
    dsimp only [Closing.inBytes]
    by_cases hbegin : done = 0 ∧ name = "begin".toList
    · rw [if_pos hbegin, if_pos hbegin, ← position_succ hbrace rfl, sub_add_right, ok_bind,
        slice_position hinner]
      rfl
    · rw [if_neg hbegin, if_neg hbegin]
      rfl
  · rw [hbody] at hoptional
    rw [hbody, if_pos List.head?_cons, position_succ hoptional rfl,
      closeGroup_position (Nat.le_refl 1) ((List.suffix_cons _ _).trans hoptional), ok_bind, hclose,
      hraw]
    rfl

theorem rawArgument_length {content after : Text} (h : rawArgument rest = .read content after) :
    after.length < rest.length := by
  have hlength := ((optionalArguments_suffix _).trans (skipBlanks_suffix rest)).length_le
  rcases rawArgument_cases rest with ⟨-, hraw⟩ | ⟨env, after', hbody, -, hraw⟩ |
    ⟨body, depth, -, -, hraw⟩ <;> rw [hraw] at h
  · cases h
  · obtain ⟨rfl, rfl⟩ := RawArgument.read.inj h
    rw [hbody, List.length_cons, List.length_append, List.length_cons] at hlength
    omega
  · cases h

/-- Where no name of an environment is still to be read, no more arguments are added. -/
theorem arguments_loop {name : Text} {done : Nat} (hname : done = 0 → name ≠ "begin".toList)
    (n : Nat) (h : rest <:+ text) :
    loop text.byteLength (argumentRound text name) (done, done + n) (position text rest) =
      .ok ((rawArguments n rest).inBytes text) := by
  induction n generalizing done rest with
  | zero => exact loop_done (if_neg (Nat.lt_irrefl done))
  | succ n ih =>
    have hcount : done < done + (n + 1) := by omega
    have hround := argumentRound_position name hcount h
    rw [rawArguments]
    cases hraw : rawArgument rest with
    | absent =>
      rw [hraw] at hround
      exact loop_done hround
    | unclosed depth =>
      rw [hraw] at hround
      exact loop_done hround
    | read env after =>
      have hafter := rawArgument_suffix hraw
      rw [hraw] at hround
      dsimp only at hround
      rw [if_neg fun hbegin => hname hbegin.1 hbegin.2] at hround
      rw [loop_next_position h hafter (rawArgument_length hraw) hround,
        show done + (n + 1) = done + 1 + n by omega]
      exact ih (fun hzero => absurd hzero (Nat.succ_ne_zero done)) (hafter.trans h)

/-- The arguments of a command end where the segmenter leaves them. -/
theorem arguments_position {name : String} {count : Nat} (hcount : name = "begin" → count = 1)
    (h : rest <:+ text) :
    arguments text name.toList count (position text rest) =
      .ok ((commandArguments name count rest).inBytes text) := by
  rw [arguments, commandArguments]
  by_cases hname : name = "begin"
  · obtain rfl := hname
    have hround := argumentRound_position "begin".toList Nat.zero_lt_one h
    rw [hcount rfl, if_pos (beq_self_eq_true "begin")]
    cases hraw : rawArgument rest with
    | absent =>
      rw [hraw] at hround
      exact loop_done hround
    | unclosed depth =>
      rw [hraw] at hround
      exact loop_done hround
    | read env after =>
      have hafter := rawArgument_suffix hraw
      rw [hraw] at hround
      dsimp only at hround
      rw [if_pos ⟨rfl, rfl⟩] at hround
      rw [loop_next_position h hafter (rawArgument_length hraw) hround]
      exact arguments_loop (fun hzero => absurd hzero Nat.one_ne_zero) _ (hafter.trans h)
  · have hother : 0 = 0 → name.toList ≠ "begin".toList :=
      fun _ heq => hname (String.toList_inj.mp heq)
    have hloop := arguments_loop hother count h
    rw [Nat.zero_add] at hloop
    rw [if_neg (by simpa using hname)]
    exact hloop

/-! ### Open groups -/

/-- Some group is open as long as the last one has not closed. -/
theorem one_le_of_unclosed {depth left : Nat} (hdepth : 1 ≤ depth)
    (h : Latex.closeGroup depth text = .unclosed left) : 1 ≤ left := by
  fun_induction Latex.closeGroup depth text with
  | case1 depth => exact Closing.unclosed.inj h ▸ hdepth
  | case2 depth text ih => exact ih hdepth h
  | case3 depth text ih => exact ih hdepth h
  | case4 depth text ih => exact ih (Nat.le_add_left 1 depth) h
  | case5 => cases h
  | case6 depth text hlarge ih => exact ih (by omega) h
  | case7 depth c text _ _ _ _ ih => exact ih hdepth h

/-- Some group is open where an argument that holds no text does not close. -/
theorem one_le_of_rawArgument {depth : Nat} (h : rawArgument text = .unclosed depth) :
    1 ≤ depth := by
  rcases rawArgument_cases text with ⟨-, hraw⟩ | ⟨env, after, -, -, hraw⟩ |
    ⟨body, depth', -, hclose, hraw⟩ <;> rw [hraw] at h
  · cases h
  · cases h
  · obtain rfl := RawArgument.unclosed.inj h
    exact one_le_of_unclosed (Nat.le_refl 1) hclose

theorem one_le_of_rawArguments {n depth : Nat} (h : rawArguments n text = .unclosed depth) :
    1 ≤ depth := by
  induction n generalizing text with
  | zero => cases h
  | succ n ih =>
    rw [rawArguments] at h
    split at h
    · cases h
    · exact ih h
    · next depth' hraw =>
      obtain rfl := Closing.unclosed.inj h
      exact one_le_of_rawArgument hraw

theorem one_le_of_commandArguments {name : String} {count depth : Nat}
    (h : commandArguments name count text = .unclosed depth) : 1 ≤ depth := by
  unfold commandArguments at h
  split at h
  · split at h
    · cases h
    · exact one_le_of_rawArguments h
    · next depth' hraw =>
      obtain rfl := Closing.unclosed.inj h
      exact one_le_of_rawArgument hraw
  · exact one_le_of_rawArguments h

end Marginalia.Offset
