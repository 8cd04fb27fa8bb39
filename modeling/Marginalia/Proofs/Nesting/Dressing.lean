import Marginalia.Proofs.Nesting.Carving
import Marginalia.Proofs.Nesting.Pass

/-! # Notes and wrappers between atoms

A rendered text is the converted text with notes between its atoms and wrappers around runs of
running text (`Dressed`).  Its atoms are still what they seem (`Dressed.wellSpelled`), and they nest
where those of the converted text do (`Dressed.nest`): a note changes nothing, and a wrapper leaves
what its running text leaves, since a bracket behind highlighted text counts as an argument's
already.

Braces around wrappers hide the brackets in them, so a bracket in front of them may not close where it
may in the converted text.  Then fewer brackets are open in the dressed atoms, which does no harm
(`Below`).

That no verbatim environment comes about is a matter of the first characters: a wrapper and a note
begin with an escape, which is in no environment's name (`Dressed.isPrefix`).
-/
namespace Marginalia

open Text Latex Relocation

variable {atoms dressed run inner back : List Atom} {text : Text}

/-! ### Wrappers -/

/-- The atoms of a wrapper: a command with a bracketed option around its argument. -/
def layer (name : String) (option : Text) (inner : List Atom) : List Atom :=
  .word false name :: .char false '[' :: (option.map (Atom.char false) ++
    .char false ']' :: .char false '\x7b' :: (inner ++ [.char false '\x7d']))

/-- Atoms in braces. -/
def shield (inner : List Atom) : List Atom :=
  .char false '\x7b' :: (inner ++ [.char false '\x7d'])

theorem layer_append (name : String) (option : Text) (inner back : List Atom) :
    layer name option inner ++ back = .word false name :: .char false '[' ::
      (option.map (Atom.char false) ++ .char false ']' :: .char false '\x7b' ::
        (inner ++ .char false '\x7d' :: back)) := by
  simp [layer]

theorem shield_append (inner back : List Atom) :
    shield inner ++ back = .char false '\x7b' :: (inner ++ .char false '\x7d' :: back) := by
  simp [shield]

/-- The commands of wrappers. -/
def IsWrapper (name : String) : Prop :=
  name = "highLight" ∨ name = "underLine"

/-- Running text in one or more wrappers, with or without braces around them. -/
inductive Wrapped (run : List Atom) : List Atom → Prop
  | single {name : String} {option : Text} (hname : IsWrapper name)
      (hoption : ∀ c ∈ option, Ordinary c) : Wrapped run (layer name option run)
  | layer {name : String} {option : Text} {inner : List Atom} (hname : IsWrapper name)
      (hoption : ∀ c ∈ option, Ordinary c) (h : Wrapped run inner) :
      Wrapped run (layer name option inner)
  | shield {inner : List Atom} (h : Wrapped run inner) : Wrapped run (shield inner)

theorem spell_chars (isLit : Bool) (text : Text) : spell (text.map (Atom.char isLit)) = text := by
  induction text with
  | nil => rfl
  | cons c text ih => exact congrArg (c :: ·) ih

theorem spell_layer (name : String) (option : Text) (inner : List Atom) :
    spell (layer name option inner) =
      '\\' :: (name.toList ++ '[' :: (option ++ ']' :: '\x7b' :: (spell inner ++ ['\x7d']))) := by
  simp [layer, Atom.toText, spell_chars]

theorem spell_shield (inner : List Atom) :
    spell (shield inner) = '\x7b' :: (spell inner ++ ['\x7d']) := by
  simp [shield, Atom.toText]

theorem IsWrapper.stands {name : String} (h : IsWrapper name) :
    (Atom.word false name).Stands ('[' :: text) := by
  have hstops : Stops Char.isAlpha ('[' :: text) := stops_cons.mpr (by decide)
  rcases h with rfl | rfl
  · exact ⟨by decide, by decide, by decide, by decide, hstops,
      Verbatim.begins?_word (by decide) (by decide) hstops⟩
  · exact ⟨by decide, by decide, by decide, by decide, hstops,
      Verbatim.begins?_word (by decide) (by decide) hstops⟩

/-! ### Spelling -/

theorem stops_append {p : Char → Bool} {text rest : Text} (h : Stops p text) (hrest : Stops p rest) :
    Stops p (text ++ rest) := by
  cases text with
  | nil => exact hrest
  | cons c text => exact stops_cons.mpr (stops_cons.mp h)

theorem wellSpelled_chars {isLit : Bool} {option : Text} (hoption : ∀ c ∈ option, Ordinary c)
    (h : WellSpelled back) : WellSpelled (option.map (Atom.char isLit) ++ back) := by
  induction option with
  | nil => exact h
  | cons c option ih =>
    obtain ⟨hc, hoption⟩ := List.forall_mem_cons.mp hoption
    exact ⟨⟨hc.escape, hc.comment⟩, ih hoption⟩

/-- A brace that closes, in front of other atoms. -/
theorem wellSpelled_close (hback : WellSpelled back) :
    WellSpelled (.char false '\x7d' :: back) :=
  ⟨⟨by decide, by decide⟩, hback⟩

/-- A glyph stands wherever its word ends. -/
theorem Atom.Stands.glyph {isLit : Bool} {name : String} {rest rest' : Text}
    (h : (Atom.word isLit name).Stands rest) (hname : isTextSymbol name = true)
    (hstops : Stops Char.isAlpha rest') : (Atom.word isLit name).Stands rest' := by
  obtain ⟨hne, hletters, hverb, hannot, -, -⟩ := h
  refine ⟨hne, hletters, hverb, hannot, hstops, Verbatim.begins?_word hletters ?_ hstops⟩
  rintro rfl
  exact absurd hname (by decide)

/-- Running text can stand in front of other atoms that do not go on with a word. -/
theorem Running.wellSpelled_append (h : Running run) (hrun : WellSpelled run)
    (hback : WellSpelled back) (hstops : Stops Char.isAlpha (spell back)) :
    WellSpelled (run ++ back) := by
  induction h with
  | nil => exact hback
  | char hc _ ih => exact ⟨hrun.1, ih hrun.2⟩
  | symbol hc _ ih => exact ⟨hrun.1, ih hrun.2⟩
  | glyph hname _ ih =>
    have hrest := stops_append hrun.1.2.2.2.2.1 hstops
    rw [← spell_append] at hrest
    exact ⟨hrun.1.glyph hname hrest, ih hrun.2⟩
  | emptyGroup hname _ ih =>
    exact ⟨hrun.1.glyph hname (stops_cons.mpr (by decide)), hrun.2.1, hrun.2.2.1,
      ih hrun.2.2.2⟩

theorem wellSpelled_layer {name : String} {option : Text} (hname : IsWrapper name)
    (hoption : ∀ c ∈ option, Ordinary c) (hinner : WellSpelled (inner ++ .char false '\x7d' :: back)) :
    WellSpelled (layer name option inner ++ back) := by
  have hargument : WellSpelled (.char false ']' :: .char false '\x7b' ::
      (inner ++ .char false '\x7d' :: back)) :=
    ⟨⟨by decide, by decide⟩, ⟨by decide, by decide⟩, hinner⟩
  rw [layer_append]
  exact ⟨hname.stands, ⟨by decide, by decide⟩, wellSpelled_chars hoption hargument⟩

theorem Wrapped.wellSpelled (h : Wrapped run inner) (hrunning : Running run)
    (hrun : WellSpelled run) (hback : WellSpelled back) : WellSpelled (inner ++ back) := by
  induction h generalizing back with
  | single hname hoption =>
    refine wellSpelled_layer hname hoption ?_
    exact hrunning.wellSpelled_append hrun (wellSpelled_close hback) (stops_cons.mpr (by decide))
  | layer hname hoption _ ih => exact wellSpelled_layer hname hoption (ih (wellSpelled_close hback))
  | shield _ ih =>
    rw [shield_append]
    exact ⟨⟨by decide, by decide⟩, ih (wellSpelled_close hback)⟩

/-! ### Brackets that may close -/

namespace Nesting

variable {nesting nesting' next last : Nesting}

/-- Highlighted text may come to stand in a wrapper, whose option ends with a bracket. -/
theorem mayClose_running (h : Running run) (hlit : ∀ atom ∈ run, atom.IsLit) (hne : run ≠ [])
    (back : List Atom) : mayClose 0 (run ++ back) = true := by
  have hfirst {atom : Atom} {run : List Atom} (hatom : isWrappable atom = true) :
      mayClose 0 (atom :: run ++ back) = true := by
    change (isWrappable atom || _) = true
    rw [hatom, Bool.true_or]
  have hglyph {isLit : Bool} {name : String} (hname : isTextSymbol name = true)
      (hlit : (Atom.word isLit name).IsLit) : isWrappable (.word isLit name) = true :=
    Bool.and_eq_true_iff.mpr ⟨hlit hname, hname⟩
  cases h with
  | nil => exact absurd rfl hne
  | char hc _ => exact hfirst (hlit _ List.mem_cons_self hc)
  | @symbol isLit c run hc _ =>
    refine hfirst (Bool.and_eq_true_iff.mpr ⟨hlit _ List.mem_cons_self hc, ?_⟩)
    rw [hc]
    rfl
  | glyph hname _ => exact hfirst (hglyph hname (hlit _ List.mem_cons_self))
  | emptyGroup hname _ => exact hfirst (hglyph hname (hlit _ List.mem_cons_self))

/-- Inside a group, running text is passed over. -/
theorem mayClose_running_succ (h : Running run) (depth : Nat) (back : List Atom) :
    mayClose (depth + 1) (run ++ back) = mayClose (depth + 1) back := by
  induction h with
  | nil => rfl
  | @char isLit c run hc _ ih =>
    rw [List.cons_append, mayClose_char hc.left hc.right hc.rightBracket, ih]
    rfl
  | symbol _ _ ih => exact ih
  | glyph _ _ ih => exact ih
  | emptyGroup _ _ ih => exact ih

theorem mayClose_option {option : Text} (hoption : ∀ c ∈ option, Ordinary c) (depth : Nat)
    (back : List Atom) :
    mayClose depth (option.map (Atom.char false) ++ back) = mayClose depth back := by
  induction option with
  | nil => rfl
  | cons c option ih =>
    obtain ⟨hc, hoption⟩ := List.forall_mem_cons.mp hoption
    rw [List.map_cons, List.cons_append, mayClose_char hc.left hc.right hc.rightBracket, ih hoption,
      Bool.and_false, Bool.false_or]

/-- Inside a group, a wrapper is passed over if what stands in it is. -/
theorem mayClose_layer_succ {name : String} {option : Text} (hoption : ∀ c ∈ option, Ordinary c)
    (hinner : ∀ depth back, mayClose (depth + 1) (inner ++ back) = mayClose (depth + 1) back)
    (depth : Nat) (back : List Atom) :
    mayClose (depth + 1) (layer name option inner ++ back) = mayClose (depth + 1) back := by
  have hopen : mayClose (depth + 1) (layer name option inner ++ back) =
      mayClose (depth + 1) (option.map (Atom.char false) ++ .char false ']' ::
        .char false '\x7b' :: (inner ++ .char false '\x7d' :: back)) := by
    rw [layer_append]
    rfl
  rw [hopen, mayClose_option hoption]
  exact hinner (depth + 1) (.char false '\x7d' :: back)

/-- Inside a group, wrappers are passed over. -/
theorem mayClose_wrapped_succ (h : Wrapped run inner) (hrunning : Running run) (depth : Nat)
    (back : List Atom) : mayClose (depth + 1) (inner ++ back) = mayClose (depth + 1) back := by
  induction h generalizing depth back with
  | single _ hoption =>
    exact mayClose_layer_succ hoption (mayClose_running_succ hrunning) depth back
  | layer _ hoption _ ih => exact mayClose_layer_succ hoption ih depth back
  | shield _ ih =>
    rw [shield_append]
    exact ih (depth + 1) (.char false '\x7d' :: back)

/-! ### Nesting -/

/-- Highlighted running text leaves what is open, and a bracket behind it may be an argument's. -/
theorem nest_running (h : Running run) (hlit : ∀ atom ∈ run, atom.IsLit) (hne : run ≠ [])
    (back : List Atom) : nesting.nest (run ++ back) = nest ⟨nesting.groups, true⟩ back := by
  -- The last atom of the text makes the nesting ready.
  have hmany {nesting : Nesting} {run : List Atom}
      (ih : run ≠ [] → nest ⟨nesting.groups, true⟩ (run ++ back) = nest ⟨nesting.groups, true⟩ back) :
      nest ⟨nesting.groups, true⟩ (run ++ back) = nest ⟨nesting.groups, true⟩ back := by
    by_cases hrun : run = []
    · rw [hrun, List.nil_append]
    · exact ih hrun
  induction h generalizing nesting with
  | nil => exact absurd rfl hne
  | @char isLit c run hc _ ih =>
    obtain ⟨hchar, hrest⟩ := List.forall_mem_cons.mp hlit
    have hread (closes : Bool) : nesting.readChar closes isLit c = some ⟨nesting.groups, true⟩ := by
      obtain rfl : isLit = true := hchar hc
      unfold readChar
      split
      · exact absurd rfl hc.left
      · exact absurd rfl hc.leftBracket
      · exact absurd rfl hc.right
      · exact absurd rfl hc.rightBracket
      · exact absurd rfl hc.dollar
      · exact absurd rfl hc.ampersand
      · rw [Bool.true_or]
    rw [List.cons_append, nest_cons, Nesting.read, hread]
    exact hmany fun hrun => ih hrest hrun
  | @symbol isLit c run hc _ ih =>
    obtain ⟨hsymbol, hrest⟩ := List.forall_mem_cons.mp hlit
    obtain rfl : isLit = true := hsymbol hc
    rw [List.cons_append, nest_cons, Nesting.read, hc]
    exact hmany fun hrun => ih hrest hrun
  | glyph hname _ ih =>
    have hrest := (List.forall_mem_cons.mp hlit).2
    exact hmany fun hrun => ih hrest hrun
  | @emptyGroup isLit left right name run hname _ ih =>
    have hgroup := (List.forall_mem_cons.mp (List.forall_mem_cons.mp hlit).2).2
    change nest ⟨nesting.groups, true⟩ (run ++ back) = _
    exact hmany fun hrun => ih (List.forall_mem_cons.mp hgroup).2 hrun

theorem nest_option {option : Text} (hoption : ∀ c ∈ option, Ordinary c) (nesting : Nesting)
    (back : List Atom) :
    ∃ isReady, nesting.nest (option.map (Atom.char false) ++ back) =
      nest ⟨nesting.groups, isReady⟩ back := by
  induction option generalizing nesting with
  | nil => exact ⟨nesting.isReady, rfl⟩
  | cons c option ih =>
    obtain ⟨hc, hoption⟩ := List.forall_mem_cons.mp hoption
    obtain ⟨isReady, hread, -⟩ := readChar_of_plain hc.toPlain nesting
      (mayClose 0 (option.map (Atom.char false) ++ back)) false
    obtain ⟨isReady', hnest⟩ := ih hoption ⟨nesting.groups, isReady⟩
    refine ⟨isReady', ?_⟩
    rw [List.map_cons, List.cons_append, nest_cons, Nesting.read, hread]
    exact hnest

/-- A wrapper leaves what is open, if what stands in it does. -/
theorem nest_layer {name : String} {option : Text} (hoption : ∀ c ∈ option, Ordinary c)
    (hinner : ∀ nesting back, nest nesting (inner ++ back) = nest ⟨nesting.groups, true⟩ back)
    (nesting : Nesting) (back : List Atom) :
    nesting.nest (layer name option inner ++ back) = nest ⟨nesting.groups, true⟩ back := by
  have hcloses : mayClose 0 (option.map (Atom.char false) ++ .char false ']' ::
      .char false '\x7b' :: (inner ++ .char false '\x7d' :: back)) = true := by
    rw [mayClose_option hoption]
    rfl
  obtain ⟨isReady, hnest⟩ := nest_option hoption ⟨.bracket :: nesting.groups, false⟩
    (.char false ']' :: .char false '\x7b' :: (inner ++ .char false '\x7d' :: back))
  calc nesting.nest (layer name option inner ++ back)
      = nest ⟨.bracket :: nesting.groups, false⟩ (option.map (Atom.char false) ++
          .char false ']' :: .char false '\x7b' :: (inner ++ .char false '\x7d' :: back)) := by
        rw [layer_append, nest_cons, Nesting.read, Option.bind_some, nest_cons, Nesting.read, hcloses]
        rfl
    _ = nest ⟨.brace :: nesting.groups, false⟩ (inner ++ .char false '\x7d' :: back) := by
        rw [hnest]
        rfl
    _ = nest ⟨nesting.groups, true⟩ back := by
        rw [hinner]
        rfl

theorem nest_wrapped (h : Wrapped run inner)
    (hrun : ∀ nesting back, nest nesting (run ++ back) = nest ⟨nesting.groups, true⟩ back)
    (nesting : Nesting) (back : List Atom) :
    nesting.nest (inner ++ back) = nest ⟨nesting.groups, true⟩ back := by
  induction h generalizing nesting back with
  | single hname hoption => exact nest_layer hoption hrun nesting back
  | layer hname hoption _ ih => exact nest_layer hoption ih nesting back
  | @shield inner _ ih =>
    have hopen : nesting.nest (shield inner ++ back) =
        nest ⟨.brace :: nesting.groups, false⟩ (inner ++ .char false '\x7d' :: back) := by
      rw [shield_append]
      rfl
    rw [hopen, ih]
    rfl

/-! ### Fewer brackets -/

/-- The first nesting is the second less some brackets, and no bracket would be an argument's that
is none in the second. -/
structure Below (nesting' nesting : Nesting) : Prop where
  groups : Thinned nesting.groups nesting'.groups
  isReady : nesting.isReady = false → nesting'.isReady = false

theorem below_self (nesting : Nesting) : Below nesting nesting :=
  ⟨.refl nesting.groups, id⟩

theorem mayClose_note (depth : Nat) (note : Text) (atoms : List Atom) :
    mayClose depth (.note note :: atoms) = mayClose depth atoms := by
  rw [mayClose, isWrappable, Bool.and_false, Bool.false_or]
  all_goals simp

/-- A bracket that may close behind an atom may close behind it in any row that closes more. -/
theorem mayClose_cons_mono {atom : Atom}
    (h : ∀ depth, mayClose depth dressed = true → mayClose depth atoms = true) (depth : Nat)
    (hmay : mayClose depth (atom :: dressed) = true) : mayClose depth (atom :: atoms) = true := by
  by_cases hwrappable : (depth == 0 && isWrappable atom) = true
  · exact Bool.or_eq_true_iff.mpr (.inl hwrappable)
  have hbehind := (Bool.or_eq_true_iff.mp hmay).resolve_left hwrappable
  have hright {a b : Bool} (hb : b = true) : (a || b) = true := Bool.or_eq_true_iff.mpr (.inr hb)
  cases atom with
  | word isLit name => exact hright (h depth hbehind)
  | symbol isLit c => exact hright (h depth hbehind)
  | comment line => exact hright (h depth hbehind)
  | note note => exact hright (h depth hbehind)
  | verbatim isBalanced text => exact hright rfl
  | char isLit c =>
    by_cases hleft : c = '\x7b'
    · subst hleft
      exact hright (h (depth + 1) hbehind)
    by_cases hclose : c = '\x7d'
    · subst hclose
      cases depth with
      | zero => cases hbehind
      | succ depth => exact hright (h depth hbehind)
    by_cases hbracket : c = ']'
    · subst hbracket
      cases depth with
      | zero => exact hright rfl
      | succ depth => exact hright (h (depth + 1) hbehind)
    · rw [mayClose_char hleft hclose hbracket] at hmay ⊢
      exact hright (h depth ((Bool.or_eq_true_iff.mp hmay).resolve_left hwrappable))

/-- An atom leaves fewer brackets open where fewer were open. -/
theorem Below.readChar {closes closes' isLit : Bool} {c : Char} (h : Below nesting' nesting)
    (hcloses : closes' = true → closes = true) (hread : nesting.readChar closes isLit c = some next) :
    ∃ next', nesting'.readChar closes' isLit c = some next' ∧ Below next' next := by
  obtain ⟨groups, isReady⟩ := nesting
  obtain ⟨groups', isReady'⟩ := nesting'
  obtain ⟨hgroups, hready⟩ := h
  dsimp only at hgroups hready
  unfold Nesting.readChar at hread ⊢
  split at hread
  · obtain rfl := Option.some.inj hread
    exact ⟨_, rfl, .keep .brace hgroups, fun _ => rfl⟩
  · obtain rfl := Option.some.inj hread
    refine ⟨_, rfl, ?_, fun _ => rfl⟩
    dsimp only
    by_cases hopens' : (isReady' && closes') = true
    · -- What opens here opens there too.
      obtain ⟨hready', hcloses'⟩ := Bool.and_eq_true_iff.mp hopens'
      have hopens : (isReady && closes) = true := by
        refine Bool.and_eq_true_iff.mpr ⟨?_, hcloses hcloses'⟩
        refine (Bool.not_eq_false _).mp fun heq => ?_
        rw [hready heq] at hready'
        cases hready'
      rw [if_pos hopens, if_pos hopens']
      exact .keep .bracket hgroups
    · rw [if_neg hopens']
      split
      · exact .drop hgroups
      · exact hgroups
  · split at hread
    · next outer heq =>
      obtain rfl : groups = .brace :: outer := heq
      obtain rfl := Option.some.inj hread
      obtain ⟨frames, rfl, hframes⟩ := hgroups.of_brace
      exact ⟨_, rfl, hframes, fun heq => heq⟩
    · cases hread
  · cases hgroups with
    | nil =>
      obtain rfl := Option.some.inj hread
      exact ⟨_, rfl, .nil, fun _ => rfl⟩
    | @keep delimiter outer frames hframes =>
      cases delimiter with
      | brace =>
        obtain rfl := Option.some.inj hread
        exact ⟨_, rfl, .keep .brace hframes, fun _ => rfl⟩
      | bracket =>
        obtain rfl := Option.some.inj hread
        exact ⟨_, rfl, hframes, fun heq => heq⟩
    | @drop outer _ hframes =>
      -- The bracket that closes there may be open no longer here.
      obtain rfl := Option.some.inj hread
      cases groups' with
      | nil => exact ⟨_, rfl, hframes, fun heq => by cases heq⟩
      | cons delimiter frames =>
        cases delimiter with
        | brace => exact ⟨_, rfl, hframes, fun heq => by cases heq⟩
        | bracket => exact ⟨_, rfl, hframes.tail, fun heq => heq⟩
  · obtain rfl := Option.some.inj hread
    exact ⟨_, rfl, hgroups, fun _ => rfl⟩
  · obtain rfl := Option.some.inj hread
    exact ⟨_, rfl, hgroups, fun _ => rfl⟩
  · obtain rfl := Option.some.inj hread
    refine ⟨_, rfl, hgroups, fun heq => ?_⟩
    obtain ⟨hlit, htransparent⟩ := Bool.or_eq_false_iff.mp heq
    refine Bool.or_eq_false_iff.mpr ⟨hlit, ?_⟩
    rcases Bool.and_eq_false_iff.mp htransparent with hc | hisReady
    · exact Bool.and_eq_false_iff.mpr (.inl hc)
    · exact Bool.and_eq_false_iff.mpr (.inr (hready hisReady))

theorem Below.read {closes closes' : Bool} {atom : Atom} (h : Below nesting' nesting)
    (hcloses : closes' = true → closes = true) (hread : nesting.read closes atom = some next) :
    ∃ next', nesting'.read closes' atom = some next' ∧ Below next' next := by
  cases atom with
  | word isLit name =>
    obtain rfl := Option.some.inj hread
    exact ⟨_, rfl, h.groups, id⟩
  | symbol isLit c =>
    obtain rfl := Option.some.inj hread
    exact ⟨_, rfl, h.groups, id⟩
  | char isLit c => exact h.readChar hcloses hread
  | comment line =>
    obtain rfl := Option.some.inj hread
    exact ⟨nesting', rfl, h⟩
  | note note =>
    obtain rfl := Option.some.inj hread
    exact ⟨nesting', rfl, h⟩
  | verbatim isBalanced text =>
    unfold Nesting.read at hread ⊢
    dsimp only at hread ⊢
    rw [h.groups.contains_brace]
    split at hread
    · next hbalanced =>
      obtain rfl := Option.some.inj hread
      exact ⟨_, if_pos hbalanced, h.groups, id⟩
    · cases hread

end Nesting

/-! ### Dressed atoms -/

/-- The second row of atoms is the first with notes between its atoms and wrappers around runs of
highlighted running text. -/
inductive Dressed : List Atom → List Atom → Prop
  | nil : Dressed [] []
  | keep {atom : Atom} {atoms dressed : List Atom} (h : Dressed atoms dressed) :
      Dressed (atom :: atoms) (atom :: dressed)
  | note {note : Text} {atoms dressed : List Atom} (hnote : IsNote note)
      (h : Dressed atoms dressed) : Dressed atoms (.note note :: dressed)
  | wrapped {run inner atoms dressed : List Atom} (hrunning : Running run)
      (hlit : ∀ atom ∈ run, atom.IsLit) (hne : run ≠ []) (hwrapped : Wrapped run inner)
      (h : Dressed atoms dressed) : Dressed (run ++ atoms) (inner ++ dressed)

namespace Dressed

theorem append {atoms' dressed' : List Atom} (h : Dressed atoms dressed)
    (h' : Dressed atoms' dressed') : Dressed (atoms ++ atoms') (dressed ++ dressed') := by
  induction h with
  | nil => exact h'
  | keep _ ih => exact .keep ih
  | note hnote _ ih => exact .note hnote ih
  | wrapped hrunning hlit hne hwrapped _ ih =>
    rw [List.append_assoc, List.append_assoc]
    exact .wrapped hrunning hlit hne hwrapped ih

/-- Atoms as they are. -/
theorem refl (atoms : List Atom) : Dressed atoms atoms := by
  induction atoms with
  | nil => exact .nil
  | cons atom atoms ih => exact .keep ih

theorem notes {notes : List Text} (h : ∀ note ∈ notes, IsNote note) :
    Dressed [] (notes.map Atom.note) := by
  induction notes with
  | nil => exact .nil
  | cons note notes ih =>
    obtain ⟨hnote, hnotes⟩ := List.forall_mem_cons.mp h
    exact .note hnote (ih hnotes)

/-- A bracket that may close in the dressed atoms may close in the atoms. -/
theorem mayClose_mono (h : Dressed atoms dressed) (depth : Nat)
    (hmay : Nesting.mayClose depth dressed = true) : Nesting.mayClose depth atoms = true := by
  induction h generalizing depth with
  | nil => exact hmay
  | keep _ ih => exact Nesting.mayClose_cons_mono ih depth hmay
  | note _ _ ih =>
    rw [Nesting.mayClose_note] at hmay
    exact ih depth hmay
  | wrapped hrunning hlit hne hwrapped _ ih =>
    cases depth with
    | zero => exact Nesting.mayClose_running hrunning hlit hne _
    | succ depth =>
      rw [Nesting.mayClose_wrapped_succ hwrapped hrunning] at hmay
      rw [Nesting.mayClose_running_succ hrunning]
      exact ih (depth + 1) hmay

/-- **Dressed atoms nest where the atoms do**, and no more is open behind them. -/
theorem nest {nesting nesting' last : Nesting} (h : Dressed atoms dressed)
    (hbelow : nesting'.Below nesting) (hnest : nesting.nest atoms = some last) :
    ∃ last', nesting'.nest dressed = some last' ∧ last'.Below last := by
  induction h generalizing nesting nesting' with
  | nil =>
    obtain rfl := Option.some.inj hnest
    exact ⟨nesting', rfl, hbelow⟩
  | @keep atom atoms dressed h ih =>
    obtain ⟨next, hread, hlast⟩ := Option.bind_eq_some_iff.mp hnest
    -- What may close behind the atom has become less, so fewer brackets open here.
    obtain ⟨next', hread', hnext⟩ := hbelow.read (h.mayClose_mono 0) hread
    obtain ⟨last', hnest', hlast'⟩ := ih hnext hlast
    exact ⟨last', Option.bind_eq_some_iff.mpr ⟨next', hread', hnest'⟩, hlast'⟩
  | note _ _ ih => exact ih hbelow hnest
  | @wrapped run inner atoms dressed hrunning hlit hne hwrapped _ ih =>
    have hrun (nesting : Nesting) (back : List Atom) :
        nesting.nest (run ++ back) = Nesting.nest ⟨nesting.groups, true⟩ back :=
      Nesting.nest_running hrunning hlit hne back
    rw [hrun] at hnest
    rw [Nesting.nest_wrapped hwrapped hrun]
    have hready : Nesting.Below ⟨nesting'.groups, true⟩ ⟨nesting.groups, true⟩ :=
      ⟨hbelow.groups, id⟩
    exact ih hready hnest

/-! ### Dressed atoms are what they seem -/

theorem not_isPrefix_escape {name : Text} (hname : ∀ c ∈ name, c ≠ '\\') (text : Text) :
    ¬ name ++ ['\x7d'] <+: '\\' :: text := by
  intro hhead
  cases name with
  | nil => exact absurd (List.cons_prefix_cons.mp hhead).1 (by decide)
  | cons c name => exact hname c List.mem_cons_self (List.cons_prefix_cons.mp hhead).1

/-- A wrapper begins with an escape, or with braces around one. -/
theorem not_isPrefix_wrapped (h : Wrapped run inner) {name rest : Text}
    (hname : ∀ c ∈ name, c ≠ '\\') : ¬ name ++ ['\x7d'] <+: spell inner ++ rest := by
  induction h generalizing name rest with
  | single => exact not_isPrefix_escape hname _
  | layer => exact not_isPrefix_escape hname _
  | @shield inner _ ih =>
    rw [spell_shield, List.cons_append, List.append_assoc]
    intro hhead
    cases name with
    | nil => exact absurd (List.cons_prefix_cons.mp hhead).1 (by decide)
    | cons c name =>
      exact ih (List.forall_mem_cons.mp hname).2 (List.cons_prefix_cons.mp hhead).2

/-- A name in front of a closing brace is in front of the dressed atoms only if it is in front of
the atoms. -/
theorem isPrefix (h : Dressed atoms dressed) (hatoms : WellSpelled atoms) {name : Text}
    (hname : ∀ c ∈ name, c ≠ '\\' ∧ c ≠ '%') (hhead : name ++ ['\x7d'] <+: spell dressed) :
    name ++ ['\x7d'] <+: spell atoms := by
  have hescape : ∀ c ∈ name, c ≠ '\\' := fun c hc => (hname c hc).1
  induction h generalizing name with
  | nil => exact hhead
  | @keep atom atoms dressed _ ih =>
    cases atom with
    | word isLit word => exact absurd hhead (not_isPrefix_escape hescape _)
    | symbol isLit c => exact absurd hhead (not_isPrefix_escape hescape _)
    | note note =>
      have hnote : IsNote note := hatoms.1
      obtain ⟨tail, rfl⟩ := hnote.eq_cons
      exact absurd hhead (not_isPrefix_escape hescape _)
    | verbatim isBalanced text =>
      obtain ⟨tail, rfl⟩ := hatoms.1.1.eq_cons
      exact absurd hhead (not_isPrefix_escape hescape _)
    | comment line =>
      cases name with
      | nil => exact absurd (List.cons_prefix_cons.mp hhead).1 (by decide)
      | cons c name =>
        exact absurd (List.cons_prefix_cons.mp hhead).1 (hname c List.mem_cons_self).2
    | char isLit c =>
      cases name with
      | nil => exact List.cons_prefix_cons.mpr ⟨(List.cons_prefix_cons.mp hhead).1, List.nil_prefix⟩
      | cons d name =>
        obtain ⟨-, hname⟩ := List.forall_mem_cons.mp hname
        obtain ⟨heq, hrest⟩ := List.cons_prefix_cons.mp hhead
        exact List.cons_prefix_cons.mpr ⟨heq, ih hatoms.2 hname hrest fun c hc => (hname c hc).1⟩
  | note hnote =>
    obtain ⟨tail, rfl⟩ := hnote.eq_cons
    exact absurd hhead (not_isPrefix_escape hescape _)
  | wrapped _ _ _ hwrapped =>
    rw [spell_append] at hhead
    exact absurd hhead (not_isPrefix_wrapped hwrapped hescape)

theorem stops (h : Dressed atoms dressed) (hstops : Stops Char.isAlpha (spell atoms)) :
    Stops Char.isAlpha (spell dressed) := by
  induction h with
  | nil => exact hstops
  | @keep atom atoms dressed _ ih =>
    rw [spell_cons] at hstops ⊢
    cases htext : atom.toText with
    | nil =>
      rw [htext] at hstops
      exact ih hstops
    | cons c text =>
      rw [htext] at hstops
      exact stops_cons.mpr (stops_cons.mp hstops)
  | note hnote =>
    obtain ⟨tail, rfl⟩ := hnote.eq_cons
    exact stops_cons.mpr (by decide)
  | wrapped _ _ _ hwrapped =>
    cases hwrapped with
    | single => exact stops_cons.mpr (by decide)
    | layer => exact stops_cons.mpr (by decide)
    | shield => exact stops_cons.mpr (by decide)

/-- A control word stands in front of dressed atoms if it stands in front of the atoms. -/
theorem stands_word (h : Dressed atoms dressed) (hatoms : WellSpelled atoms) {isLit : Bool}
    {name : String} (hstands : (Atom.word isLit name).Stands (spell atoms)) :
    (Atom.word isLit name).Stands (spell dressed) := by
  obtain ⟨hne, hletters, hverb, hannot, hstops, hverbatim⟩ := hstands
  refine ⟨hne, hletters, hverb, hannot, h.stops hstops, ?_⟩
  by_cases hbegin : name = "begin"
  · -- The name of an environment would be in front of the atoms already.
    subst hbegin
    refine Verbatim.begins?_begin_eq_none_iff.mpr fun env after hafter => ?_
    have hname : ∀ c ∈ '\x7b' :: env.name, c ≠ '\\' ∧ c ≠ '%' := by cases env <;> decide
    obtain ⟨after', hafter'⟩ := h.isPrefix hatoms hname ⟨after, by
      rw [hafter, List.cons_append, List.cons_append, List.append_assoc, List.singleton_append]⟩
    refine Verbatim.begins?_begin_eq_none_iff.mp hverbatim env after' ?_
    rw [← hafter', List.cons_append, List.cons_append, List.append_assoc, List.singleton_append]
  · exact Verbatim.begins?_word hletters hbegin (h.stops hstops)

/-- **Dressed atoms are what they seem.** -/
theorem wellSpelled (h : Dressed atoms dressed) (hatoms : WellSpelled atoms) :
    WellSpelled dressed := by
  induction h with
  | nil => trivial
  | note hnote _ ih => exact ⟨hnote, ih hatoms⟩
  | wrapped hrunning _ _ hwrapped _ ih =>
    exact hwrapped.wellSpelled hrunning hatoms.left (ih hatoms.right)
  | @keep atom atoms dressed h ih =>
    refine ⟨?_, ih hatoms.2⟩
    cases atom with
    | symbol isLit c => exact hatoms.1
    | comment line => exact hatoms.1
    | char isLit c => exact hatoms.1
    | note note => exact hatoms.1
    | verbatim isBalanced text => exact hatoms.1
    | word isLit name => exact h.stands_word hatoms.2 hatoms.1

end Dressed

end Marginalia
