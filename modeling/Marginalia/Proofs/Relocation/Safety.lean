import Marginalia.Proofs.Relocation.Skeleton

/-! # Boundary safety

A text is safe if a run of the pass over it meets no error, ends with no group open, and comes to
every note at a place that can hold one (`Safe`): no group around the note is the argument of a
restricted command, and no restricted environment around it ends later (`Placeable`).

All this is a matter of the skeleton.  `Skeleton.Outcome` says it of a run from a skeleton, next to
a state of another run that the places of the notes are compared with; the lemmas below it go from
a text to the text with one more lexeme at its front.
-/
namespace Marginalia.Relocation

open Text Latex

variable {contexts : Contexts} {state after : State}

/-! ### Places for notes -/

/-- A note can stand here: no restricted command is the opener of a group around this place, and
no restricted environment around it ends in what is left of the text. -/
structure Placeable (contexts : Contexts) (state : State) (text : Text) : Prop where
  groups : ∀ frame ∈ state.frames, ∀ name, frame.opener = some name →
    contexts.classify name ≠ .restricted
  environments : ∀ depth env, state.envs.reverse[depth]? = some env →
    contexts.isRestrictedEnvironment env = true →
    ∀ later rest, Reaches contexts state text later rest → depth < later.envs.length

/-- The text is safe: the pass reads it without an error, no group is open at its end, and every
note in it stands where one can. -/
structure Safe (contexts : Contexts) (text : Text) : Prop where
  balanced : ∃ final, run contexts .start text = (final, none) ∧ final.frames = []
  placed : ∀ state c rest, Reaches contexts .start text state (c :: rest) →
    (read c rest).1 = .note → Placeable contexts state (c :: rest)

namespace Skeleton

/-- A note can stand here, as far as the skeleton tells. -/
structure Placeable (contexts : Contexts) (skeleton : Skeleton) (text : Text) : Prop where
  groups : ∀ frame ∈ skeleton.frames, ∀ name, frame.2 = some name →
    contexts.classify name ≠ .restricted
  environments : ∀ depth env, skeleton.envs.reverse[depth]? = some env →
    contexts.isRestrictedEnvironment env = true →
    ∀ later rest, skeleton.Reaches text later rest → depth < later.envs.length

/-- How a run of the skeleton over the text ends: with no error and no group open, all notes where
they can stand.  It goes through no more lists of environments than the run of the pass from the
given state over its own text does. -/
structure Outcome (contexts : Contexts) (state : State) (source : Text) (skeleton : Skeleton)
    (text : Text) : Prop where
  finishes : ∃ last, skeleton.Reaches text last [] ∧ last.frames = []
  placed : ∀ mid piece rest, skeleton.Reaches text mid (piece ++ rest) →
    Begins .note piece rest → Placeable contexts mid (piece ++ rest)
  envs : ∀ mid rest, skeleton.Reaches text mid rest →
    ∃ later left, Relocation.Reaches contexts state source later left ∧ mid.envs = later.envs

end Skeleton

/-- What is read, and what is left of it, is determined by the text. -/
theorem Begins.unique {lexeme lexeme' : Lexeme} {piece piece' rest rest' : Text}
    (h : Begins lexeme piece rest) (h' : Begins lexeme' piece' rest')
    (htext : piece ++ rest = piece' ++ rest') :
    lexeme = lexeme' ∧ piece = piece' ∧ rest = rest' := by
  obtain ⟨c, text, hcons, hread⟩ := h
  obtain ⟨c', text', hcons', hread'⟩ := h'
  obtain ⟨rfl, rfl⟩ := List.cons.inj (hcons.symm.trans (htext.trans hcons'))
  obtain ⟨rfl, rfl⟩ := Prod.mk.inj (hread.symm.trans hread')
  exact ⟨rfl, List.append_cancel_right htext, rfl⟩

theorem Begins.ne_nil {lexeme : Lexeme} {piece rest : Text} (h : Begins lexeme piece rest) :
    piece ++ rest ≠ [] := by
  obtain ⟨c, text, hcons, -⟩ := h
  rw [hcons]
  exact List.cons_ne_nil c text

namespace Skeleton

variable {skeleton mid last : Skeleton} {text source piece rest left : Text} {lexeme : Lexeme}

theorem Reaches.eq_of_nil (h : skeleton.Reaches [] last left) : last = skeleton ∧ left = [] := by
  generalize hnil : ([] : Text) = text at h
  cases h with
  | refl => exact ⟨rfl, rfl⟩
  | step hbegins _ _ => exact absurd hnil.symm hbegins.ne_nil

/-- A run over a text either has not begun or has read the first lexeme. -/
theorem Reaches.cases (h : skeleton.Reaches (piece ++ rest) last left)
    (hbegins : Begins lexeme piece rest) (hact : skeleton.act lexeme (bracketCloses rest) = some mid) :
    last = skeleton ∧ left = piece ++ rest ∨ mid.Reaches rest last left := by
  generalize htext : piece ++ rest = text at h
  cases h with
  | refl => exact .inl ⟨rfl, rfl⟩
  | step hbegins' hact' hreaches =>
    obtain ⟨rfl, rfl, rfl⟩ := hbegins.unique hbegins' htext
    obtain rfl := Option.some.inj (hact.symm.trans hact')
    exact .inr hreaches

/-- A run to the end of a text has read the first lexeme. -/
theorem Reaches.exists_act (h : skeleton.Reaches (piece ++ rest) last [])
    (hbegins : Begins lexeme piece rest) :
    ∃ mid, skeleton.act lexeme (bracketCloses rest) = some mid ∧ mid.Reaches rest last [] := by
  generalize htext : piece ++ rest = text at h
  generalize hnil : ([] : Text) = left at h
  cases h with
  | refl => exact absurd (htext.trans hnil.symm) hbegins.ne_nil
  | step hbegins' hact hreaches =>
    obtain ⟨rfl, rfl, rfl⟩ := hbegins.unique hbegins' htext
    exact ⟨_, hact, hnil ▸ hreaches⟩

/-! ### Outcomes -/

/-- At the end of the text no group may be open. -/
theorem Outcome.nil (hframes : skeleton.frames = []) (henvs : skeleton.envs = state.envs) :
    Outcome contexts state source skeleton [] where
  finishes := ⟨skeleton, .refl _ _, hframes⟩
  placed mid piece rest hreaches hbegins := absurd hreaches.eq_of_nil.2 hbegins.ne_nil
  envs mid rest hreaches := by
    obtain ⟨rfl, -⟩ := hreaches.eq_of_nil
    exact ⟨state, source, .refl _ _, henvs⟩

/-- The state may be an earlier one. -/
theorem Outcome.mono {source' : Text} (h : Outcome contexts after source' skeleton text)
    (hreaches : Relocation.Reaches contexts state source after source') :
    Outcome contexts state source skeleton text where
  finishes := h.finishes
  placed := h.placed
  envs mid rest hmid := by
    obtain ⟨later, left, hlater, henvs⟩ := h.envs mid rest hmid
    exact ⟨later, left, hreaches.trans hlater, henvs⟩

/-- One more lexeme at the front of the text; a note must stand where it can. -/
theorem Outcome.step (hbegins : Begins lexeme piece rest)
    (hact : skeleton.act lexeme (bracketCloses rest) = some mid)
    (h : Outcome contexts state source mid rest) (henvs : skeleton.envs = state.envs)
    (hnote : lexeme = .note →
      Relocation.Placeable contexts state source ∧ skeleton.frames = state.skeleton.frames) :
    Outcome contexts state source skeleton (piece ++ rest) := by
  have hlater : ∀ last left, skeleton.Reaches (piece ++ rest) last left →
      ∃ later left', Relocation.Reaches contexts state source later left' ∧ last.envs = later.envs := by
    intro last left hreaches
    rcases hreaches.cases hbegins hact with ⟨rfl, -⟩ | hrest
    · exact ⟨state, source, .refl _ _, henvs⟩
    · exact h.envs last left hrest
  refine ⟨?_, ?_, hlater⟩
  · obtain ⟨last, hlast, hframes⟩ := h.finishes
    exact ⟨last, .step hbegins hact hlast, hframes⟩
  · intro last piece' rest' hreaches hbegins'
    rcases hreaches.cases hbegins hact with ⟨rfl, heq⟩ | hrest
    · obtain ⟨rfl, rfl, rfl⟩ := hbegins'.unique hbegins heq
      obtain ⟨hplace, hframes⟩ := hnote rfl
      refine ⟨?_, ?_⟩
      · intro frame hframe name hname
        rw [hframes, State.skeleton, List.mem_map] at hframe
        obtain ⟨frame', hmem, rfl⟩ := hframe
        exact hplace.groups frame' hmem name hname
      · intro depth env hdepth hrestricted later left hlast
        obtain ⟨state', left', hstate', heq⟩ := hlater later left hlast
        rw [heq]
        exact hplace.environments depth env (henvs ▸ hdepth) hrestricted state' left' hstate'
    · exact h.placed last piece' rest' hrest hbegins'

end Skeleton

/-! ### Notes and white space -/

/-- The text is that of a note, whatever follows. -/
def IsNote (note : Text) : Prop :=
  ∀ rest, Begins .note note rest

theorem Begins.isNote {note rest : Text} (h : Begins .note note rest) : IsNote note :=
  fun _ => h.replace trivial trivial

theorem IsNote.eq_cons {note : Text} (h : IsNote note) : ∃ tail, note = '\\' :: tail := by
  cases (h []).lexes ⟨by decide, by decide, by decide⟩ with
  | note hargs => exact ⟨_, rfl⟩

/-- Notes in front of a text do not go on with what stands before them. -/
theorem stops_notes {notes : List Text} (hnotes : ∀ note ∈ notes, IsNote note) {p : Char → Bool}
    (hp : p '\\' = false) {text : Text} (htext : Stops p text) : Stops p (notes.flatten ++ text) := by
  cases notes with
  | nil => exact htext
  | cons note notes =>
    obtain ⟨tail, rfl⟩ := (hnotes note List.mem_cons_self).eq_cons
    exact stops_cons.mpr hp

/-- The search for the end of an argument passes over notes. -/
theorem closes_notes {notes : List Text} (hnotes : ∀ note ∈ notes, IsNote note) (depth : Nat)
    (text : Text) : Closes depth (notes.flatten ++ text) ↔ Closes depth text := by
  induction notes with
  | nil => rfl
  | cons note notes ih =>
    obtain ⟨hnote, hnotes⟩ := List.forall_mem_cons.mp hnotes
    rw [List.flatten_cons, List.append_assoc, (hnote _).closes_note, ih hnotes]

namespace Skeleton

variable {skeleton : Skeleton} {text source : Text}

/-- The skeleton after notes: no command waits for an argument any more. -/
def afterNotes (skeleton : Skeleton) (notes : List Text) : Skeleton :=
  if notes = [] then skeleton else skeleton.awaiting none

/-- The skeleton after white space. -/
def pass (skeleton : Skeleton) (blanks : Text) : Skeleton :=
  if 2 ≤ blanks.count '\n' then skeleton.awaiting none else skeleton

@[simp] theorem afterNotes_frames (skeleton : Skeleton) (notes : List Text) :
    (skeleton.afterNotes notes).frames = skeleton.frames := by
  unfold afterNotes
  split <;> rfl

@[simp] theorem afterNotes_envs (skeleton : Skeleton) (notes : List Text) :
    (skeleton.afterNotes notes).envs = skeleton.envs := by
  unfold afterNotes
  split <;> rfl

@[simp] theorem pass_frames (skeleton : Skeleton) (blanks : Text) :
    (skeleton.pass blanks).frames = skeleton.frames := by
  unfold pass
  split <;> rfl

@[simp] theorem pass_envs (skeleton : Skeleton) (blanks : Text) :
    (skeleton.pass blanks).envs = skeleton.envs := by
  unfold pass
  split <;> rfl

theorem act_blanks (skeleton : Skeleton) (blanks : Text) (closes : Bool) :
    skeleton.act (.blanks (2 ≤ blanks.count '\n')) closes = some (skeleton.pass blanks) := by
  unfold pass
  by_cases hparagraph : 2 ≤ blanks.count '\n'
  · rw [if_pos hparagraph, decide_eq_true hparagraph]
    rfl
  · rw [if_neg hparagraph, decide_eq_false hparagraph]
    rfl

/-- Notes where they can stand. -/
theorem Outcome.notes {notes : List Text} (hnotes : ∀ note ∈ notes, IsNote note)
    (h : Outcome contexts state source (skeleton.afterNotes notes) text)
    (henvs : skeleton.envs = state.envs)
    (hplace : notes ≠ [] →
      Relocation.Placeable contexts state source ∧ skeleton.frames = state.skeleton.frames) :
    Outcome contexts state source skeleton (notes.flatten ++ text) := by
  induction notes generalizing skeleton with
  | nil => exact h
  | cons note notes ih =>
    obtain ⟨hnote, hnotes⟩ := List.forall_mem_cons.mp hnotes
    obtain ⟨hplaceable, hframes⟩ := hplace (List.cons_ne_nil _ _)
    rw [List.flatten_cons, List.append_assoc]
    have hact (closes : Bool) : skeleton.act .note closes = some (skeleton.awaiting none) := rfl
    refine .step (hnote _) (hact _) ?_ henvs fun _ => ⟨hplaceable, hframes⟩
    refine ih hnotes ?_ henvs fun _ => ⟨hplaceable, hframes⟩
    have hafter : (skeleton.awaiting none).afterNotes notes = skeleton.afterNotes (note :: notes) := by
      unfold afterNotes
      rw [if_neg (List.cons_ne_nil _ _)]
      split <;> rfl
    rwa [hafter]

/-- White space that stops. -/
theorem Outcome.blanks {blanks : Text} (hblanks : ∀ c ∈ blanks, isTexBlank c = true)
    (h : Outcome contexts state source (skeleton.pass blanks) text) (htext : Stops isTexBlank text)
    (henvs : skeleton.envs = state.envs) :
    Outcome contexts state source skeleton (blanks ++ text) := by
  by_cases hnil : blanks = []
  · subst hnil
    exact h
  · have hbegins := (Lexes.blanks hnil hblanks htext).begins
    refine .step hbegins (skeleton.act_blanks blanks _) h henvs fun heq => by cases heq

/-- **A run whose outcome is good is a run over a safe text.** -/
theorem Outcome.safe (h : Outcome contexts .start source start text) : Safe contexts text := by
  have hstart : State.start.skeleton = start := rfl
  refine ⟨?_, ?_⟩
  · obtain ⟨last, hlast, hframes⟩ := h.finishes
    obtain ⟨final, hfinal, rfl⟩ := hlast.lift contexts hstart
    exact ⟨final, (run_eq_iff_reaches _ _ _).mpr hfinal, List.map_eq_nil_iff.mp hframes⟩
  · intro state c rest hreaches hnote
    have hbegins := begins_read c rest
    have htext := upTo_append ((read_suffix c rest).trans (List.suffix_cons c rest))
    rw [hnote] at hbegins
    rw [← htext] at hreaches ⊢
    have hplace := h.placed _ _ _ hreaches.skeleton hbegins
    refine ⟨?_, ?_⟩
    · intro frame hframe name hname
      exact hplace.groups _ (List.mem_map.mpr ⟨frame, hframe, rfl⟩) name hname
    · intro depth env hdepth hrestricted later left hlater
      exact hplace.environments depth env hdepth hrestricted later.skeleton left hlater.skeleton

end Skeleton

end Marginalia.Relocation
