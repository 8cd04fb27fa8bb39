import Marginalia.Proofs.Relocation.Closure
import Mathlib.Data.List.Forall2

/-! # Relocation moves notes and nothing else

A text is cut at the notes that the pass reads in it (`Noted.ofText`): each note with the text before
it, and the text after the last.  What the pass writes is the same plain text with the same notes in
the same order, each where it was or farther on (`relocate_moves`).

Three copies make up what is written: text goes out as it is read, notes that were taken out go out
together, and a note where nothing is held goes out at once.  Only the last could overtake a note
that waits; it does not, since notes wait only where something is held or a further argument follows
(`Waits`).
-/
namespace Marginalia.Relocation

open Text Latex

variable {contexts : Contexts} {state after final : State} {lexeme : Lexeme} {piece rest text : Text}

/-! ### Texts with notes -/

/-- A text cut at notes: each note with the text before it, and the text after the last. -/
structure Noted where
  parts : List (Text × Text)
  tail : Text
  deriving DecidableEq, Repr

namespace Noted

/-- The text itself. -/
def toText (noted : Noted) : Text :=
  noted.parts.flatMap (fun (gap, note) => gap ++ note) ++ noted.tail

/-- The text without the notes. -/
def plain (noted : Noted) : Text :=
  noted.parts.flatMap Prod.fst ++ noted.tail

/-- The notes in order. -/
def notes (noted : Noted) : List Text :=
  noted.parts.map Prod.snd

/-- The plain text before each note. -/
def leads : List (Text × Text) → List Text
  | [] => []
  | (gap, _) :: parts => gap :: (leads parts).map (gap ++ ·)

/-- The places of the notes: the plain text before each of them. -/
def places (noted : Noted) : List Text :=
  leads noted.parts

/-- The text with more plain text in front. -/
def push (piece : Text) (noted : Noted) : Noted :=
  match noted.parts with
  | [] => ⟨[], piece ++ noted.tail⟩
  | (gap, note) :: parts => ⟨(piece ++ gap, note) :: parts, noted.tail⟩

/-- The text with one more note in front. -/
def put (note : Text) (noted : Noted) : Noted :=
  ⟨([], note) :: noted.parts, noted.tail⟩

/-- The text with more notes in front. -/
def putAll (notes : List Text) (noted : Noted) : Noted :=
  notes.foldr put noted

/-- Cuts a text at the notes that the pass reads. -/
def ofText (text : Text) : Noted :=
  match text with
  | [] => ⟨[], []⟩
  | c :: text =>
    let piece := upTo (c :: text) (read c text).2
    if (read c text).1 = .note then (ofText (read c text).2).put piece
    else (ofText (read c text).2).push piece
termination_by text.length
decreasing_by all_goals exact Nat.lt_succ_of_le (read_suffix c text).length_le

variable (noted : Noted)

@[simp] theorem toText_push (piece : Text) : (noted.push piece).toText = piece ++ noted.toText := by
  obtain ⟨parts, tail⟩ := noted
  cases parts <;> simp [push, toText]

@[simp] theorem plain_push (piece : Text) : (noted.push piece).plain = piece ++ noted.plain := by
  obtain ⟨parts, tail⟩ := noted
  cases parts <;> simp [push, plain]

@[simp] theorem notes_push (piece : Text) : (noted.push piece).notes = noted.notes := by
  obtain ⟨parts, tail⟩ := noted
  cases parts <;> simp [push, notes]

@[simp] theorem places_push (piece : Text) :
    (noted.push piece).places = noted.places.map (piece ++ ·) := by
  obtain ⟨parts, tail⟩ := noted
  cases parts with
  | nil => rfl
  | cons part parts => simp [push, places, leads, Function.comp_def]

@[simp] theorem toText_put (note : Text) : (noted.put note).toText = note ++ noted.toText := by
  simp [put, toText]

@[simp] theorem plain_put (note : Text) : (noted.put note).plain = noted.plain := rfl

@[simp] theorem notes_put (note : Text) : (noted.put note).notes = note :: noted.notes := rfl

@[simp] theorem places_put (note : Text) : (noted.put note).places = [] :: noted.places := by
  simp [put, places, leads]

@[simp] theorem toText_putAll (waiting : List Text) :
    (noted.putAll waiting).toText = waiting.flatten ++ noted.toText := by
  induction waiting with
  | nil => rfl
  | cons note waiting ih =>
    rw [putAll, List.foldr_cons, toText_put, List.flatten_cons, List.append_assoc, ← ih]
    rfl

@[simp] theorem plain_putAll (waiting : List Text) : (noted.putAll waiting).plain = noted.plain := by
  induction waiting with
  | nil => rfl
  | cons note waiting ih => exact ih

@[simp] theorem notes_putAll (waiting : List Text) :
    (noted.putAll waiting).notes = waiting ++ noted.notes := by
  induction waiting with
  | nil => rfl
  | cons note waiting ih => exact congrArg (note :: ·) ih

@[simp] theorem places_putAll (waiting : List Text) :
    (noted.putAll waiting).places = waiting.map (fun _ => []) ++ noted.places := by
  induction waiting with
  | nil => rfl
  | cons note waiting ih =>
    rw [putAll, List.foldr_cons, places_put, List.map_cons, List.cons_append, ← ih]
    rfl

/-- The bytes of a text are those of its plain text and those of its notes. -/
theorem byteLength_toText :
    noted.toText.byteLength = noted.plain.byteLength + byteLength noted.notes.flatten := by
  obtain ⟨parts, tail⟩ := noted
  induction parts with
  | nil => simp [toText, plain, notes]
  | cons part parts ih =>
    simp only [toText, plain, notes, List.flatMap_cons, List.map_cons, List.flatten_cons,
      byteLength_append] at ih ⊢
    omega

end Noted

theorem Begins.ofText_note (h : Begins .note piece rest) :
    Noted.ofText (piece ++ rest) = (Noted.ofText rest).put piece := by
  obtain ⟨c, text, htext, hread⟩ := h
  rw [htext, Noted.ofText, hread, if_pos rfl, ← htext, upTo_append_right]

theorem Begins.ofText_push (h : Begins lexeme piece rest) (hnote : lexeme ≠ .note) :
    Noted.ofText (piece ++ rest) = (Noted.ofText rest).push piece := by
  obtain ⟨c, text, htext, hread⟩ := h
  rw [htext, Noted.ofText, hread, if_neg hnote, ← htext, upTo_append_right]

/-- Nothing is lost when a text is cut at its notes. -/
theorem Noted.toText_ofText (text : Text) : (ofText text).toText = text := by
  have happend (c : Char) (text : Text) :
      upTo (c :: text) (read c text).2 ++ (read c text).2 = c :: text :=
    upTo_append ((read_suffix c text).trans (List.suffix_cons c text))
  fun_induction ofText text with
  | case1 => rfl
  | case2 c text piece hnote ih => rw [toText_put, ih, happend]
  | case3 c text piece hnote ih => rw [toText_push, ih, happend]

/-! ### Notes that wait -/

/-- Notes wait only where something is held or a further argument follows. -/
def Waits (state : State) : Prop :=
  state.stash ≠ [] → state.hold.isSome = true ∨ state.rearm = true

theorem waits_start : Waits .start :=
  fun h => absurd rfl h

theorem waits_of_stash_eq_nil (h : state.stash = []) : Waits state :=
  fun hne => absurd h hne

/-- The state before a lexeme: as it was, or with the notes written that waited. -/
theorem settle_cases (state : State) (c : Char) :
    state.settle c = state ∨ state.settle c = { state.flush with rearm := false } := by
  unfold State.settle
  split
  · exact .inr rfl
  · exact .inl rfl

/-- Before a character that begins no argument, no note waits for one. -/
theorem rearm_settle {c : Char} (hbrace : c ≠ '\x7b') (hbracket : c ≠ '[')
    (hblank : isTexBlank c = false) : (state.settle c).rearm = false := by
  unfold State.settle
  by_cases hrearm : state.rearm = true
  · rw [if_pos (by simp [hrearm, hbrace, hbracket, hblank])]
  · rw [if_neg (by simp [hrearm])]
    exact Bool.eq_false_iff.mpr hrearm

theorem Waits.settle (h : Waits state) (c : Char) : Waits (state.settle c) := by
  rcases settle_cases state c with heq | heq
  · rwa [heq]
  · rw [heq]
    exact waits_of_stash_eq_nil rfl

theorem Waits.openFrame (h : Waits state) (delimiter : Delimiter) :
    Waits (state.openFrame contexts delimiter) := by
  intro hne
  left
  unfold State.openFrame
  dsimp only
  rcases h hne with hhold | hrearm
  · split
    · rfl
    · exact hhold
  · cases hhold : state.hold with
    | none => simp [hrearm]
    | some hold => simp

theorem Waits.beginEnv (h : Waits state) (env : String) : Waits (state.beginEnv contexts env) := by
  intro hne
  refine (h hne).imp_left fun hhold => ?_
  unfold State.beginEnv
  dsimp only
  split
  · rfl
  · exact hhold

theorem Waits.endEnv (h : Waits state) (env : String) : Waits (state.endEnv env) := by
  rcases state.endEnv_cases env with ⟨_, -, heq⟩ | ⟨-, heq⟩ <;> rw [heq]
  · exact waits_of_stash_eq_nil rfl
  · exact h

theorem Waits.closeFrame (h : Waits state) (frame : Frame) (outer : List Frame) (rest : Text) :
    Waits (state.closeFrame frame outer rest) := by
  unfold State.closeFrame
  dsimp only
  split
  · split
    · exact fun _ => .inr rfl
    · exact waits_of_stash_eq_nil rfl
  · exact h

/-- **After a lexeme, too, notes wait only where something is held or a further argument follows.** -/
theorem Waits.act (h : Waits state)
    (hact : state.act contexts lexeme piece rest = .next after rest) : Waits after := by
  have hemit (piece : Text) : Waits (state.emit piece) := h
  cases lexeme with
  | comment => exact (Step.next.inj hact).1 ▸ h
  | escape => exact (Step.next.inj hact).1 ▸ h
  | verbatim => exact (Step.next.inj hact).1 ▸ h
  | command name => exact (Step.next.inj hact).1 ▸ h
  | note =>
    rw [State.act] at hact
    split at hact
    · next hhold => exact (Step.next.inj hact).1 ▸ fun _ => .inl hhold
    · obtain ⟨warnings, hwarn⟩ := state.exists_warn contexts
      rw [hwarn] at hact
      exact (Step.next.inj hact).1 ▸ h
  | brokenNote => cases hact
  | opening env => exact (Step.next.inj hact).1 ▸ (hemit piece).beginEnv env
  | ending env => exact (Step.next.inj hact).1 ▸ (hemit piece).endEnv env
  | nameless => exact (Step.next.inj hact).1 ▸ h
  | left delimiter =>
    cases delimiter with
    | brace => exact (Step.next.inj hact).1 ▸ h.openFrame .brace
    | bracket =>
      rw [State.act] at hact
      split at hact
      · exact (Step.next.inj hact).1 ▸ h.openFrame .bracket
      · exact (Step.next.inj hact).1 ▸ h
  | right delimiter =>
    rcases close_cases hact with rfl | ⟨frame, outer, rfl⟩
    · exact h
    · exact (hemit [delimiter.right]).closeFrame frame outer rest
  | blanks paragraph =>
    cases paragraph with
    | true => exact (Step.next.inj hact).1 ▸ h
    | false => exact (Step.next.inj hact).1 ▸ h
  | plain => exact (Step.next.inj hact).1 ▸ h

/-- Where nothing is held, no note waits that the next one could overtake: no argument comes there. -/
theorem Waits.stash_eq_nil {c : Char} {tail : Text} (h : Waits state)
    (hbegins : Begins .note (c :: tail) rest) (hhold : (state.settle c).hold = none) :
    (state.settle c).stash = [] := by
  obtain ⟨word, hword⟩ := hbegins.isNote.eq_cons
  obtain ⟨rfl, -⟩ := List.cons.inj hword
  by_contra hne
  rcases h.settle '\\' hne with hsome | hfollows
  · rw [hhold] at hsome
    cases hsome
  · rw [rearm_settle (by decide) (by decide) (by decide)] at hfollows
    cases hfollows

/-! ### What is written -/

/-- Plain text in front leaves every note where it was or farther on. -/
theorem forall₂_prefix_map (piece : Text) (waiting : List Text) {places places' : List Text}
    (h : List.Forall₂ (· <+: ·) (waiting.map (fun _ => []) ++ places) places') :
    List.Forall₂ (· <+: ·) (waiting.map (fun _ => []) ++ places.map (piece ++ ·))
      (places'.map (piece ++ ·)) := by
  induction waiting generalizing places' with
  | nil =>
    refine List.forall₂_map_left_iff.mpr (List.forall₂_map_right_iff.mpr ?_)
    exact h.imp fun _ _ hprefix => (List.prefix_append_right_inj piece).mpr hprefix
  | cons note waiting ih =>
    cases h with
    | cons _ hrest => exact .cons List.nil_prefix (ih hrest)

/-- The text `moved` is the text `source` with notes moved on, the notes that wait in front of the
others. -/
structure Delivers (waiting : List Text) (source moved : Noted) : Prop where
  notes : moved.notes = waiting ++ source.notes
  plain : moved.plain = source.plain
  places : List.Forall₂ (· <+: ·) (waiting.map (fun _ => []) ++ source.places) moved.places

namespace Delivers

variable {waiting : List Text} {source moved : Noted}

/-- At the end of the text the notes that wait are written. -/
theorem nil (waiting : List Text) : Delivers waiting ⟨[], []⟩ (.putAll waiting ⟨[], []⟩) where
  notes := Noted.notes_putAll _ waiting
  plain := Noted.plain_putAll _ waiting
  places := by
    rw [Noted.places_putAll]
    exact List.forall₂_same.mpr fun place _ => List.prefix_refl place

/-- The notes that wait are written. -/
theorem flush (h : Delivers [] source moved) (waiting : List Text) :
    Delivers waiting source (moved.putAll waiting) where
  notes := by rw [Noted.notes_putAll, h.notes, List.nil_append]
  plain := by rw [Noted.plain_putAll, h.plain]
  places := by
    rw [Noted.places_putAll]
    refine List.rel_append (List.forall₂_same.mpr fun place _ => List.prefix_refl place) ?_
    exact h.places

/-- A piece of text is written where it stands. -/
theorem push (h : Delivers waiting source moved) (piece : Text) :
    Delivers waiting (source.push piece) (moved.push piece) where
  notes := by rw [Noted.notes_push, Noted.notes_push, h.notes]
  plain := by rw [Noted.plain_push, Noted.plain_push, h.plain]
  places := by
    rw [Noted.places_push, Noted.places_push]
    exact forall₂_prefix_map piece waiting h.places

/-- A note is taken out and waits. -/
theorem lift {note : Text} (h : Delivers (waiting ++ [note]) source moved) :
    Delivers waiting (source.put note) moved where
  notes := by rw [h.notes, Noted.notes_put, List.append_assoc, List.singleton_append]
  plain := h.plain
  places := by
    have hplaces := h.places
    rw [List.map_append, List.append_assoc] at hplaces
    rw [Noted.places_put]
    exact hplaces

/-- A note is written where it stands. -/
theorem stay (h : Delivers [] source moved) (note : Text) :
    Delivers [] (source.put note) (moved.put note) where
  notes := by rw [Noted.notes_put, h.notes]; rfl
  plain := h.plain
  places := by
    rw [Noted.places_put, Noted.places_put]
    exact .cons List.nil_prefix h.places

end Delivers

/-! ### Runs -/

/-- **What a run writes is the text it reads with its notes moved on**, those that wait in front. -/
theorem Reaches.delivers (h : Reaches contexts state text final []) (hwaits : Waits state) :
    ∃ moved, final.flush.output = state.output ++ moved.toText ∧
      Delivers state.stash (.ofText text) moved := by
  generalize hnil : ([] : Text) = rest at h
  induction h with
  | refl state =>
    subst hnil
    refine ⟨.putAll state.stash ⟨[], []⟩, ?_, ?_⟩
    · rw [State.output_flush, Noted.toText_putAll]
      exact congrArg (state.output ++ ·) (List.append_nil _).symm
    · rw [Noted.ofText]
      exact .nil state.stash
  | @step state mid final c tail left rest hstep _ ih =>
    obtain ⟨lexeme, piece, rfl, hbegins, hact⟩ := exists_begins_of_step hstep
    have hsettled := hwaits.settle c
    obtain ⟨moved, houtput, hmoved⟩ := ih (hsettled.act hact) hnil
    -- What the lexeme and the run behind it write, from the settled state.
    obtain ⟨written, hwritten, hdelivers⟩ : ∃ written,
        final.flush.output = (state.settle c).output ++ written.toText ∧
          Delivers (state.settle c).stash (.ofText (c :: piece ++ left)) written := by
      by_cases hnote : lexeme = .note
      · subst hnote
        rw [hbegins.ofText_note]
        by_cases hhold : (state.settle c).hold.isSome = true
        · rw [State.act, if_pos hhold] at hact
          obtain ⟨rfl, -⟩ := Step.next.inj hact
          exact ⟨moved, houtput, .lift hmoved⟩
        · have hnone := Option.not_isSome_iff_eq_none.mp hhold
          have hstash := hwaits.stash_eq_nil hbegins hnone
          rcases act_wrote hbegins hact (fun _ => hnone) with
            ⟨hpiece, hsame⟩ | ⟨-, -, hsome, -⟩
          · rw [hsame, hstash] at hmoved
            rw [hstash]
            refine ⟨moved.put (c :: piece), ?_, hmoved.stay (c :: piece)⟩
            rw [houtput, hpiece, Noted.toText_put, List.append_assoc]
          · exact absurd hsome hhold
      · rw [hbegins.ofText_push hnote]
        rcases act_wrote hbegins hact (fun heq => absurd heq hnote) with
          ⟨hpiece, hstash⟩ | ⟨hpiece, hstash, -, -⟩
        · refine ⟨moved.push (c :: piece), ?_, hstash ▸ hmoved.push (c :: piece)⟩
          rw [houtput, hpiece, Noted.toText_push, List.append_assoc]
        · rw [hstash] at hmoved
          refine ⟨(moved.putAll (state.settle c).stash).push (c :: piece), ?_,
            (hmoved.flush _).push (c :: piece)⟩
          rw [houtput, hpiece, Noted.toText_push, Noted.toText_putAll]
          simp only [List.append_assoc]
    rcases settle_cases state c with heq | heq
    · rw [heq] at hwritten hdelivers
      exact ⟨written, hwritten, hdelivers⟩
    · rw [heq] at hwritten hdelivers
      refine ⟨written.putAll state.stash, ?_, Delivers.flush hdelivers state.stash⟩
      rw [hwritten, Noted.toText_putAll, ← List.append_assoc, ← State.output_flush]
      rfl

/-- **Relocation only moves notes.**  If the pass accepts a text, then what it writes has the plain
text of the text and its notes in their order, each with no less plain text before it; so it has as
many bytes. -/
theorem relocate_moves {out : Text} (h : (relocate contexts text).result = .ok out) :
    ∃ moved : Noted, moved.toText = out ∧
      (Noted.ofText text).toText = text ∧
      moved.notes = (Noted.ofText text).notes ∧
      moved.plain = (Noted.ofText text).plain ∧
      List.Forall₂ (· <+: ·) (Noted.ofText text).places moved.places ∧
      out.byteLength = text.byteLength := by
  obtain ⟨final, hreaches, -, rfl⟩ := (relocate_eq_ok_iff text out).mp h
  obtain ⟨moved, houtput, hmoved⟩ := hreaches.delivers waits_start
  have hout : moved.toText = final.flush.output := houtput.symm
  refine ⟨moved, hout, Noted.toText_ofText text, hmoved.notes, hmoved.plain, hmoved.places, ?_⟩
  have hnotes : moved.notes = (Noted.ofText text).notes := hmoved.notes
  rw [← hout, moved.byteLength_toText, hmoved.plain, hnotes, ← Noted.byteLength_toText,
    Noted.toText_ofText]

/-- Two notes in a caption, with text before, between and behind them. -/
theorem relocate_moves_caption :
    let text := '\\' :: ("caption".toList ++ '{' :: 'x' :: (noteText ['k'] ['a'] ++
      'y' :: (noteText ['l'] ['b'] ++ ['}', 'z'])))
    let out := '\\' :: ("caption".toList ++ '{' :: 'x' :: 'y' :: '}' :: (noteText ['k'] ['a'] ++
      (noteText ['l'] ['b'] ++ ['z'])))
    (relocate .standard text).result = .ok out ∧
    ∃ moved : Noted, moved.toText = out ∧
      moved.notes = (Noted.ofText text).notes ∧
      moved.plain = (Noted.ofText text).plain := by
  intro text out
  have hrelocate : (relocate .standard text).result = .ok out := by decide +kernel
  obtain ⟨moved, hout, -, hnotes, hplain, -⟩ := relocate_moves hrelocate
  exact ⟨hrelocate, moved, hout, hnotes, hplain⟩

end Marginalia.Relocation
