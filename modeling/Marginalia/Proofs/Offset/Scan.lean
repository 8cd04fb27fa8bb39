import Marginalia.Proofs.Offset.Slice
import Marginalia.Proofs.Scan

/-! # Scans by positions

The scanners of control sequences, comments, groups, bracketed arguments and verbatim text once
more, as they read the bytes of a text from a position on.  Most of them do not look at characters
at all: they go on by one from any byte that is not one of the few they look for, also inside a
character of several bytes.

At the position of a rest, each of them gives the position at which the scanner of that rest leaves
the text (`commandAt_position`, …, `verbEnd_position`), and no fault.  The scan of a group takes one
from the number of open groups at every closing brace, which is why at least one must be open where
it begins (`closeGroup_position`).
-/
namespace Marginalia.Offset

open Text Latex

variable {text rest : Text} {c : Char}

/-- The first character that passes the test, and its position. -/
def find? (p : Char → Bool) (text : Text) : Option (Nat × Char) :=
  match text.dropWhile fun c => !p c with
  | c :: rest => some (position text (c :: rest), c)
  | [] => none

/-- Behind the character that is found stands what is left of the text. -/
theorem find?_cases (p : Char → Bool) (h : rest <:+ text) :
    (∃ n c, find? p rest = some (n, c) ∧ p c = true ∧
      position text rest + n + c.utf8Size =
        position text ((rest.dropWhile fun c => !p c).drop 1)) ∨
    (find? p rest = none ∧ (rest.dropWhile fun c => !p c).drop 1 = []) := by
  have hdrop := List.dropWhile_suffix (l := rest) fun c => !p c
  have hstops := stops_dropWhile (fun c => !p c) rest
  rw [find?]
  cases hfound : rest.dropWhile fun c => !p c with
  | nil => exact .inr ⟨rfl, rfl⟩
  | cons c after =>
    rw [hfound, stops_cons] at hstops
    rw [hfound] at hdrop
    refine .inl ⟨_, c, rfl, by simpa using hstops, ?_⟩
    obtain ⟨front, rfl⟩ := hdrop
    rw [position_append, ← position_of_append h, ← position_cons ((List.suffix_append _ _).trans h)]
    rfl

/-! ### Control sequences and comments -/

/-- A control sequence: its name, the position behind it, and whether it is a word. -/
structure Command where
  name : Text
  stop : Nat
  isWord : Bool

/-- Reads the control sequence whose backslash stands at a position. -/
def commandAt (text : Text) (i : Nat) : Checked Command := do
  let letters := countWhile Char.isAlpha (← sliceFrom text (i + 1))
  if 0 < letters then
    return ⟨← slice text (i + 1) (i + 1 + letters), i + 1 + letters, true⟩
  else
    match ← sliceFrom text (i + 1) with
    | c :: _ =>
      return ⟨← slice text (i + 1) (i + 1 + c.utf8Size), i + 1 + c.utf8Size, false⟩
    | [] => return ⟨[], i + 1, false⟩

/-- A control sequence and what is left behind it, by positions. -/
def Command.ofRead (text : Text) : Control × Text → Command
  | (.word name, rest) => ⟨name.toList, position text rest, true⟩
  | (.symbol c, rest) => ⟨[c], position text rest, false⟩
  | (.bare, rest) => ⟨[], position text rest, false⟩

theorem stop_ofRead (text : Text) (read : Control × Text) :
    (Command.ofRead text read).stop = position text read.2 := by
  obtain ⟨control, rest⟩ := read
  cases control <;> rfl

theorem lt_of_isAlpha (h : c.isAlpha = true) : c.toNat < 128 := by
  rcases toNat_of_isAlpha h with hupper | hlower <;> omega

theorem commandAt_position (h : '\\' :: rest <:+ text) :
    commandAt text (position text ('\\' :: rest)) = .ok (.ofRead text (readControl rest)) := by
  have hrest : rest <:+ text := (List.suffix_cons _ _).trans h
  rw [commandAt, position_succ h rfl, sliceFrom_position hrest, ok_bind,
    countWhile_eq fun c => lt_of_isAlpha]
  rcases readControl_cases rest with ⟨name, after, hread, rfl, hne, hletters, hstops⟩ |
    ⟨c, after, hread, rfl, hc⟩ | ⟨hread, rfl⟩
  · have hpos : 0 < byteLength name.toList :=
      byteLength_pos fun hnil => hne (String.toList_eq_nil_iff.mp hnil)
    rw [hread, (takeWhile_append_stop hletters hstops).1, if_pos hpos, ← position_of_append hrest,
      slice_position hrest]
    rfl
  · have hsuffix : [c] ++ after <:+ text := hrest
    rw [hread, List.takeWhile_cons_of_neg (by simp [hc])]
    dsimp only [byteLength_nil]
    rw [if_neg (Nat.lt_irrefl 0), ok_bind]
    dsimp only
    rw [← position_cons hrest, ← List.singleton_append, slice_position hsuffix]
    rfl
  · rw [hread]
    rfl

/-- The position behind the comment whose percent sign stands at a position. -/
def commentEnd (text : Text) (i : Nat) : Checked Nat := do
  match find? (· == '\n') (← sliceFrom text i) with
  | some (n, _) => return i + n + 1
  | none => return text.byteLength

theorem dropComment_eq (text : Text) :
    dropComment text = (text.dropWhile fun c => !(c == '\n')).drop 1 := by
  induction text with
  | nil => rfl
  | cons c text ih =>
    rw [dropComment]
    by_cases hc : c = '\n'
    · rw [if_pos hc, List.dropWhile_cons_of_neg (by simp [hc])]
      rfl
    · rw [if_neg hc, List.dropWhile_cons_of_pos (by simp [hc]), ih]

theorem commentEnd_position (h : '%' :: rest <:+ text) :
    commentEnd text (position text ('%' :: rest)) = .ok (position text (dropComment rest)) := by
  have hpercent : ('%' :: rest).dropWhile (fun c => !(c == '\n')) =
      rest.dropWhile fun c => !(c == '\n') := rfl
  rw [commentEnd, sliceFrom_position h, ok_bind, dropComment_eq, ← hpercent]
  rcases find?_cases (· == '\n') h with ⟨n, c, hfind, hc, hstop⟩ | ⟨hfind, hnil⟩
  · obtain rfl := beq_iff_eq.mp hc
    rw [hfind, ← hstop]
    rfl
  · rw [hfind, hnil, position_nil]
    rfl

section Loops

variable {σ α : Type} {round : σ → Nat → Checked (Round σ α)} {state state' : σ}

/-- A round that reads a control sequence. -/
theorem loop_control (h : '\\' :: rest <:+ text)
    (hround : round state (position text ('\\' :: rest)) = do
      return .next state (← commandAt text (position text ('\\' :: rest))).stop) :
    loop text.byteLength round state (position text ('\\' :: rest)) =
      loop text.byteLength round state (position text (readControl rest).2) := by
  have hread := readControl_suffix rest
  refine loop_next_position h (hread.trans (List.suffix_cons _ _))
    (Nat.lt_succ_of_le hread.length_le) (hround.trans ?_)
  rw [commandAt_position h, ok_bind, stop_ofRead, pure_eq_ok]

/-- A round that reads a comment. -/
theorem loop_comment (h : '%' :: rest <:+ text)
    (hround : round state (position text ('%' :: rest)) = do
      return .next state (← commentEnd text (position text ('%' :: rest)))) :
    loop text.byteLength round state (position text ('%' :: rest)) =
      loop text.byteLength round state (position text (dropComment rest)) := by
  have hdrop := dropComment_suffix rest
  refine loop_next_position h (hdrop.trans (List.suffix_cons _ _))
    (Nat.lt_succ_of_le hdrop.length_le) (hround.trans ?_)
  rw [commentEnd_position h, ok_bind, pure_eq_ok]

/-- A round that reads a character of one byte. -/
theorem loop_succ (h : c :: rest <:+ text) (hc : c.utf8Size = 1)
    (hround : round state (position text (c :: rest)) =
      .ok (.next state' (position text (c :: rest) + 1))) :
    loop text.byteLength round state (position text (c :: rest)) =
      loop text.byteLength round state' (position text rest) := by
  rw [position_succ h hc] at hround
  exact loop_next_position h (List.suffix_cons _ _) (Nat.lt_succ_self _) hround

end Loops

/-! ### Blanks -/

/-- A round of the search for the end of the white space before an argument, behind a line feed or
not. -/
def blankRound (text : Text) (newline : Bool) (i : Nat) : Checked (Round Bool Nat) :=
  match byteAt? text i with
  | some ' ' => return .next newline (i + 1)
  | some '\t' => return .next newline (i + 1)
  | some '\r' => return .next newline (i + 1)
  | some '\n' => if newline then return .done i else return .next true (i + 1)
  | _ => return .done i

/-- The position behind the white space before an argument. -/
def skipWs (text : Text) (i : Nat) : Checked Nat :=
  loop text.byteLength (blankRound text) false i

theorem skipWs_position (h : rest <:+ text) :
    skipWs text (position text rest) = .ok (position text (skipBlanks rest)) := by
  -- The loop carries whether a newline has been seen, so the induction is over both values of it.
  have key (rest : Text) (newline : Bool) (h : rest <:+ text) :
      loop text.byteLength (blankRound text) newline (position text rest) =
        .ok (position text (skipBlanksUpTo (!newline) rest)) := by
    induction rest generalizing newline with
    | nil =>
      refine loop_done ?_
      rw [blankRound, byteAt?_position_nil]
      rfl
    | cons c rest ih =>
      have hrest : rest <:+ text := (List.suffix_cons _ _).trans h
      rw [skipBlanksUpTo]
      by_cases hblank : c = ' ' ∨ c = '\t' ∨ c = '\r'
      · have hround : blankRound text newline (position text (c :: rest)) =
            .ok (.next newline (position text (c :: rest) + 1)) := by
          rcases hblank with rfl | rfl | rfl <;> rw [blankRound, byteAt?_position h (by decide)] <;>
            rfl
        have hsize : c.utf8Size = 1 := by rcases hblank with rfl | rfl | rfl <;> rfl
        rw [if_pos hblank, loop_succ h hsize hround]
        exact ih newline hrest
      · rw [if_neg hblank]
        by_cases hline : c = '\n' ∧ newline = false
        · obtain ⟨rfl, rfl⟩ := hline
          have hround : blankRound text false (position text ('\n' :: rest)) =
              .ok (.next true (position text ('\n' :: rest) + 1)) := by
            rw [blankRound, byteAt?_position h (by decide)]
            rfl
          rw [if_pos ⟨rfl, rfl⟩, loop_succ h rfl hround]
          exact ih true hrest
        · rw [if_neg (by simpa using hline)]
          -- Neither a blank nor the first newline is here, and the round ends at everything else.
          refine loop_done ?_
          have hchar {d : Char} (hd : d.toNat < 128)
              (hbyte : byteAt? text (position text (c :: rest)) = some d) : c = d :=
            Option.some.inj ((byteAt?_position_iff h hd).mp hbyte)
          rw [blankRound]
          split
          · exact absurd (.inl (hchar (by decide) ‹_›)) hblank
          · exact absurd (.inr (.inl (hchar (by decide) ‹_›))) hblank
          · exact absurd (.inr (.inr (hchar (by decide) ‹_›))) hblank
          · have hseen : newline = true := by
              cases newline with
              | false => exact absurd ⟨hchar (by decide) ‹_›, rfl⟩ hline
              | true => rfl
            exact if_pos hseen
          · rfl
  exact key rest false h

theorem lt_of_isTexBlank (h : isTexBlank c = true) : c.toNat < 128 := by
  simp only [isTexBlank, Bool.or_eq_true, beq_iff_eq] at h
  rcases h with ((rfl | rfl) | rfl) | rfl <;> decide

/-- The position behind the run of white space at a position, and whether the run ends a paragraph.
-/
def blankRun (text : Text) (i : Nat) : Checked (Nat × Bool) := do
  let stop := i + countWhile isTexBlank (← sliceFrom text i)
  return (stop, 2 ≤ (← slice text i stop).count '\n')

theorem blankRun_position (h : rest <:+ text) :
    blankRun text (position text rest) = .ok (position text (rest.dropWhile isTexBlank),
      2 ≤ (rest.takeWhile isTexBlank).count '\n') := by
  have hsplit : rest.takeWhile isTexBlank ++ rest.dropWhile isTexBlank = rest :=
    List.takeWhile_append_dropWhile
  have hrun : rest.takeWhile isTexBlank ++ rest.dropWhile isTexBlank <:+ text := by rwa [hsplit]
  have hstop := position_of_append hrun
  have hslice := slice_position hrun
  rw [hsplit] at hstop hslice
  rw [blankRun, sliceFrom_position h, ok_bind, countWhile_eq fun c => lt_of_isTexBlank, ← hstop]
  dsimp only
  rw [hslice]
  rfl

/-! ### Groups -/

/-- A round of the scan of a group. -/
def groupRound (text : Text) (depth i : Nat) : Checked (Round Nat (Except Nat Nat)) :=
  match byteAt? text i with
  | some '\\' => return .next depth (← commandAt text i).stop
  | some '%' => return .next depth (← commentEnd text i)
  | some '{' => return .next (depth + 1) (i + 1)
  | some '}' => do
    let depth ← sub depth 1
    if depth = 0 then return .done (.ok (i + 1)) else return .next depth (i + 1)
  | some _ => return .next depth (i + 1)
  | none => return .done (.error depth)

/-- The position behind the group inside which `depth` groups are open at a position, or the number
of groups open at the end of the text. -/
def closeGroup (text : Text) (i depth : Nat) : Checked (Except Nat Nat) :=
  loop text.byteLength (groupRound text) depth i

theorem groupRound_of_ne {depth i : Nat} {b : Char} (hb : byteAt? text i = some b)
    (hinert : Inert b) : groupRound text depth i = .ok (.next depth (i + 1)) := by
  rw [groupRound, hb]
  split
  · exact absurd (Option.some.inj ‹_›) hinert.escape
  · exact absurd (Option.some.inj ‹_›) hinert.comment
  · exact absurd (Option.some.inj ‹_›) hinert.left
  · exact absurd (Option.some.inj ‹_›) hinert.right
  · rfl
  · cases ‹some b = none›

theorem inert_of_eq_or_le {b : Char} (hb : b = c ∨ 128 ≤ b.toNat) (hc : Inert c) : Inert b := by
  rcases hb with rfl | hlarge
  · exact hc
  · constructor <;> rintro rfl <;> exact absurd hlarge (by decide)

/-- **The number of open groups never goes below zero**, and nothing is taken out of place, where
the scan of a group begins with an open group. -/
theorem closeGroup_position {depth : Nat} (hdepth : 1 ≤ depth) (h : rest <:+ text) :
    closeGroup text (position text rest) depth =
      .ok ((Latex.closeGroup depth rest).inBytes text) := by
  rw [closeGroup]
  fun_induction Latex.closeGroup depth rest with
  | case1 depth =>
    refine loop_done ?_
    rw [groupRound, byteAt?_position_nil]
    rfl
  | case2 depth rest ih =>
    have hread := (readControl_suffix rest).trans (List.suffix_cons '\\' rest)
    rw [loop_control h (by rw [groupRound, byteAt?_position h (by decide)]; rfl)]
    exact ih hdepth (hread.trans h)
  | case3 depth rest ih =>
    have hdrop := (dropComment_suffix rest).trans (List.suffix_cons '%' rest)
    rw [loop_comment h (by rw [groupRound, byteAt?_position h (by decide)]; rfl)]
    exact ih hdepth (hdrop.trans h)
  | case4 depth rest ih =>
    have hrest : rest <:+ text := (List.suffix_cons _ _).trans h
    have hround : groupRound text depth (position text ('{' :: rest)) =
        .ok (.next (depth + 1) (position text ('{' :: rest) + 1)) := by
      rw [groupRound, byteAt?_position h (by decide)]
      rfl
    rw [loop_succ h rfl hround]
    exact ih (Nat.le_add_left 1 depth) hrest
  | case5 depth rest hle =>
    -- The group that closes is the last one: the depth is one, and taking one from it is no fault.
    obtain rfl : depth = 1 := Nat.le_antisymm hle hdepth
    refine loop_done ?_
    rw [groupRound, byteAt?_position h (by decide), Closing.inBytes, ← position_succ h rfl]
    rfl
  | case6 depth rest hlarge ih =>
    have hrest : rest <:+ text := (List.suffix_cons _ _).trans h
    have hround : groupRound text depth (position text ('}' :: rest)) =
        .ok (.next (depth - 1) (position text ('}' :: rest) + 1)) := by
      rw [groupRound, byteAt?_position h (by decide), sub, if_pos hdepth]
      exact if_neg (by omega)
    rw [loop_succ h rfl hround]
    exact ih (by omega) hrest
  | case7 depth c rest hescape hcomment hleft hright ih =>
    have hrest : rest <:+ text := (List.suffix_cons _ _).trans h
    rw [loop_skip h fun i b hb hbyte =>
      groupRound_of_ne hb (inert_of_eq_or_le hbyte ⟨hescape, hleft, hright, hcomment⟩)]
    exact ih hdepth hrest

/-! ### Bracketed arguments -/

/-- How the scan of a bracketed argument ends, with the position behind its closing bracket. -/
inductive BracketEnd where
  | closed (stop : Nat)
  | unclosed
  | broken
  deriving DecidableEq, Repr

/-- How the scan of a bracketed argument ends, by positions. -/
def BracketEnd.ofScan (text : Text) : BracketScan → BracketEnd
  | .closed rest => .closed (position text rest)
  | .unclosed => .unclosed
  | .broken => .broken

/-- A round of the scan of a bracketed argument. -/
def bracketRound (text : Text) (_ : Unit) (i : Nat) : Checked (Round Unit BracketEnd) :=
  match byteAt? text i with
  | some '\\' => return .next () (← commandAt text i).stop
  | some '%' => return .next () (← commentEnd text i)
  | some '{' => do
    match ← closeGroup text (i + 1) 1 with
    | .ok stop => return .next () stop
    | .error _ => return .done .unclosed
  | some '}' => return .done .broken
  | some ']' => return .done (.closed (i + 1))
  | some _ => return .next () (i + 1)
  | none => return .done .unclosed

/-- Scans the bracketed argument whose opening bracket stands at a position. -/
def scanBracket (text : Text) (i : Nat) : Checked BracketEnd :=
  loop text.byteLength (bracketRound text) () (i + 1)

theorem bracketRound_of_ne {i : Nat} {b : Char} (hb : byteAt? text i = some b) (hinert : Inert b)
    (hright : b ≠ ']') : bracketRound text () i = .ok (.next () (i + 1)) := by
  rw [bracketRound, hb]
  split
  · exact absurd (Option.some.inj ‹_›) hinert.escape
  · exact absurd (Option.some.inj ‹_›) hinert.comment
  · exact absurd (Option.some.inj ‹_›) hinert.left
  · exact absurd (Option.some.inj ‹_›) hinert.right
  · exact absurd (Option.some.inj ‹_›) hright
  · rfl
  · cases ‹some b = none›

theorem scanBracket_position (h : '[' :: rest <:+ text) :
    scanBracket text (position text ('[' :: rest)) =
      .ok (.ofScan text (Latex.scanBracket rest)) := by
  rw [scanBracket, position_succ h rfl]
  have hrest : rest <:+ text := (List.suffix_cons _ _).trans h
  clear h
  fun_induction Latex.scanBracket rest with
  | case1 =>
    refine loop_done ?_
    rw [bracketRound, byteAt?_position_nil]
    rfl
  | case2 rest ih =>
    have hread := (readControl_suffix rest).trans (List.suffix_cons '\\' rest)
    rw [loop_control hrest (by rw [bracketRound, byteAt?_position hrest (by decide)]; rfl)]
    exact ih (hread.trans hrest)
  | case3 rest ih =>
    have hdrop := (dropComment_suffix rest).trans (List.suffix_cons '%' rest)
    rw [loop_comment hrest (by rw [bracketRound, byteAt?_position hrest (by decide)]; rfl)]
    exact ih (hdrop.trans hrest)
  | case4 rest after hclose ih =>
    have hafter := closeGroup_suffix hclose
    have hbody : rest <:+ text := (List.suffix_cons _ _).trans hrest
    have hround : bracketRound text () (position text ('{' :: rest)) =
        .ok (.next () (position text after)) := by
      rw [bracketRound, byteAt?_position hrest (by decide)]
      -- A group inside the brackets is passed over by the scan of groups, at depth one.
      change (closeGroup text (position text ('{' :: rest) + 1) 1 >>= _) = _
      rw [position_succ hrest rfl, closeGroup_position (Nat.le_refl 1) hbody, hclose]
      rfl
    rw [loop_next_position hrest (hafter.trans (List.suffix_cons _ _))
      (Nat.lt_succ_of_le hafter.length_le) hround]
    exact ih (hafter.trans hbody)
  | case5 rest left hclose =>
    have hbody : rest <:+ text := (List.suffix_cons _ _).trans hrest
    refine loop_done ?_
    rw [bracketRound, byteAt?_position hrest (by decide)]
    change (closeGroup text (position text ('{' :: rest) + 1) 1 >>= _) = _
    rw [position_succ hrest rfl, closeGroup_position (Nat.le_refl 1) hbody, hclose]
    rfl
  | case6 rest =>
    refine loop_done ?_
    rw [bracketRound, byteAt?_position hrest (by decide)]
    rfl
  | case7 rest =>
    refine loop_done ?_
    rw [bracketRound, byteAt?_position hrest (by decide), BracketEnd.ofScan,
      ← position_succ hrest rfl]
    rfl
  | case8 c rest hescape hcomment hleft hright hbracket ih =>
    have hinert : Inert c := ⟨hescape, hleft, hright, hcomment⟩
    have hround (i : Nat) (b : Char) (hb : byteAt? text i = some b)
        (hbyte : b = c ∨ 128 ≤ b.toNat) : bracketRound text () i = .ok (.next () (i + 1)) := by
      refine bracketRound_of_ne hb (inert_of_eq_or_le hbyte hinert) ?_
      rcases hbyte with rfl | hlarge
      · exact hbracket
      · rintro rfl
        exact absurd hlarge (by decide)
    rw [loop_skip hrest hround]
    exact ih ((List.suffix_cons _ _).trans hrest)

/-- The position behind the bracketed argument whose opening bracket stands at a position, if it
closes. -/
def bracketEnd (text : Text) (i : Nat) : Checked (Option Nat) := do
  match ← scanBracket text i with
  | .closed stop => return some stop
  | _ => return none

theorem bracketEnd_position (h : '[' :: rest <:+ text) :
    bracketEnd text (position text ('[' :: rest)) =
      .ok ((readBracket? ('[' :: rest)).map (position text)) := by
  rw [bracketEnd, scanBracket_position h, ok_bind, readBracket?]
  cases Latex.scanBracket rest <;> rfl

/-! ### Verbatim text -/

/-- What stands at the beginning of an environment before its name. -/
def beginning : Text :=
  "\\begin\x7b".toList

/-- The verbatim environment that begins at a position. -/
def verbatimBegin (text : Text) (i : Nat) : Checked (Option Verbatim) := do
  match beginning.isPrefixOf? (← sliceFrom text i) with
  | none => return none
  | some rest =>
    return Verbatim.all.find? fun env =>
      match env.name.isPrefixOf? rest with
      | some tail => tail.head? == some '}'
      | none => false

theorem append_isPrefixOf? (word more text : Text) :
    (word ++ more).isPrefixOf? text = (word.isPrefixOf? text).bind more.isPrefixOf? := by
  induction word generalizing text with
  | nil => rw [isPrefixOf?_nil]; rfl
  | cons c word ih =>
    cases text with
    | nil => rfl
    | cons d text =>
      rw [List.cons_append, isPrefixOf?_cons, isPrefixOf?_cons]
      split
      · exact ih text
      · rfl

/-- A word, another word and a closing brace stand at the front of a text. -/
theorem isSome_isPrefixOf? (word name text : Text) :
    ((word ++ name ++ ['}']).isPrefixOf? text).isSome =
      match word.isPrefixOf? text with
      | none => false
      | some rest =>
        match name.isPrefixOf? rest with
        | some tail => tail.head? == some '}'
        | none => false := by
  rw [List.append_assoc, append_isPrefixOf?]
  cases word.isPrefixOf? text with
  | none => rfl
  | some rest =>
    rw [Option.bind_some, append_isPrefixOf?]
    cases hname : name.isPrefixOf? rest with
    | none => simp [hname]
    | some tail =>
      dsimp only
      rw [hname, Option.bind_some]
      cases tail with
      | nil => rfl
      | cons c tail =>
        rw [isPrefixOf?_cons, isPrefixOf?_nil]
        by_cases hc : c = '}'
        · simp [hc]
        · simp [hc, Ne.symm hc]

/-- The first word that something begins with. -/
theorem map_fst_findSome? {α β : Type} (f : α → Option β) (words : List α) :
    (words.findSome? fun a => (f a).map (a, ·)).map Prod.fst =
      words.find? fun a => (f a).isSome := by
  induction words with
  | nil => rfl
  | cons a words ih =>
    rw [List.findSome?_cons, List.find?_cons]
    cases f a with
    | none => exact ih
    | some b => rfl

theorem verbatimBegin_position (h : rest <:+ text) :
    verbatimBegin text (position text rest) = .ok ((Verbatim.begins? rest).map Prod.fst) := by
  have hopening (env : Verbatim) : env.opening = beginning ++ env.name ++ ['}'] := rfl
  rw [verbatimBegin, sliceFrom_position h, ok_bind, Verbatim.begins?, map_fst_findSome?]
  simp only [hopening, isSome_isPrefixOf?]
  cases beginning.isPrefixOf? rest with
  | none => rfl
  | some body => rfl

/-- The position behind the beginning of a verbatim environment that begins at a position. -/
def bodyStart (env : Verbatim) (i : Nat) : Nat :=
  i + beginning.byteLength + env.name.byteLength + 1

theorem bodyStart_position {env : Verbatim} (h : env.opening ++ rest <:+ text) :
    bodyStart env (position text (env.opening ++ rest)) = position text rest := by
  have hopening : env.opening = beginning ++ env.name ++ ['}'] := rfl
  have hlength : env.opening.byteLength = beginning.byteLength + env.name.byteLength + 1 := by
    rw [hopening, byteLength_append, byteLength_append]
    rfl
  rw [bodyStart, position_of_append h, hlength, ← Nat.add_assoc, ← Nat.add_assoc]

/-- The position behind the end of a verbatim environment. -/
def verbatimEnd (text : Text) (i : Nat) (env : Verbatim) : Checked (Option Nat) := do
  match split? env.closing (← sliceFrom text i) with
  | some (front, _) => return some (i + front.byteLength + env.closing.byteLength)
  | none => return none

theorem verbatimEnd_position (h : rest <:+ text) (env : Verbatim) :
    verbatimEnd text (position text rest) env = .ok ((env.end? rest).map (position text)) := by
  rw [verbatimEnd, sliceFrom_position h, ok_bind, Verbatim.end?]
  cases hsplit : split? env.closing rest with
  | none => rfl
  | some found =>
    obtain ⟨front, after⟩ := found
    obtain rfl := split?_eq_some hsplit
    have hafter : position text after =
        position text (front ++ env.closing ++ after) + (front ++ env.closing).byteLength :=
      position_of_append h
    rw [Option.map_some, Option.map_some, hafter, byteLength_append, ← Nat.add_assoc]
    rfl

/-- The position behind the inline verbatim text whose first delimiter stands at a position. -/
def delimitedEnd (text : Text) (i : Nat) : Checked Nat := do
  match ← sliceFrom text i with
  | [] => return text.byteLength
  | delimiter :: _ => do
    let start := i + delimiter.utf8Size
    match find? (fun c => c == delimiter || c == '\n') (← sliceFrom text start) with
    | some (n, c) => return start + n + c.utf8Size
    | none => return text.byteLength

/-- The position behind the inline verbatim text whose control word stands at a position. -/
def verbEnd (text : Text) (i : Nat) : Checked Nat := do
  let start := i + byteLength "\\verb".toList
  if (← sliceFrom text start).head? = some '*' then delimitedEnd text (start + 1)
  else delimitedEnd text start

theorem delimitedEnd_position {delimiter : Char} (h : delimiter :: rest <:+ text) :
    delimitedEnd text (position text (delimiter :: rest)) =
      .ok (position text ((rest.dropWhile fun c => c != delimiter && c != '\n').drop 1)) := by
  have hrest : rest <:+ text := (List.suffix_cons _ _).trans h
  have hpass : (fun c => c != delimiter && c != '\n') =
      fun c => !(c == delimiter || c == '\n') := by
    funext c
    rw [Bool.not_or]
    rfl
  rw [delimitedEnd, sliceFrom_position h, ok_bind, hpass]
  dsimp only
  rw [← position_cons h, sliceFrom_position hrest, ok_bind]
  rcases find?_cases (fun c => c == delimiter || c == '\n') hrest with
    ⟨n, c, hfind, -, hstop⟩ | ⟨hfind, hnil⟩
  · rw [hfind, ← hstop]
    rfl
  · rw [hfind, hnil, position_nil]
    rfl

theorem delimitedEnd_position_nil (text : Text) :
    delimitedEnd text (position text []) = .ok (position text []) := by
  rw [delimitedEnd, sliceFrom_position List.nil_suffix, ok_bind, position_nil]
  rfl

theorem dropVerb_of_ne (hc : c ≠ '*') (body : Text) :
    dropVerb (c :: body) = (body.dropWhile fun d => d != c && d != '\n').drop 1 := by
  unfold dropVerb
  extract_lets delimited
  have hdelimited : delimited = c :: body := by
    unfold delimited
    split
    · next heq => exact absurd (List.cons.inj heq).1 hc
    · rfl
  rw [hdelimited]

theorem verbEnd_position (h : "\\verb".toList ++ rest <:+ text) :
    verbEnd text (position text ("\\verb".toList ++ rest)) =
      .ok (position text (dropVerb rest)) := by
  have hrest : rest <:+ text := (List.suffix_append _ _).trans h
  rw [verbEnd, ← position_of_append h, sliceFrom_position hrest, ok_bind]
  cases rest with
  | nil => exact delimitedEnd_position_nil text
  | cons c body =>
    have hbody : body <:+ text := (List.suffix_cons _ _).trans hrest
    by_cases hc : c = '*'
    · obtain rfl := hc
      rw [List.head?_cons, if_pos rfl, position_succ hrest rfl]
      cases body with
      | nil => exact delimitedEnd_position_nil text
      | cons delimiter body => exact delimitedEnd_position hbody
    · rw [List.head?_cons, if_neg fun heq => hc (Option.some.inj heq), dropVerb_of_ne hc]
      exact delimitedEnd_position hrest

end Marginalia.Offset
