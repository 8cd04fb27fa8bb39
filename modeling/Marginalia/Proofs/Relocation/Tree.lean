import Marginalia.Proofs.Relocation.Step

/-! # Document trees

A document as a tree of characters, groups, commands with their arguments, environments and
notes.  `Document.print` writes the tree out.  `Document.relocate` moves the notes of the tree:
those under a restricted command or environment come right after the outermost such one.

The tree says which group belongs to which command, and the text does not, so a tree is
`WellFormed` only if no bare group stands where an argument would be expected.
-/
namespace Marginalia.Relocation

open Text Latex

mutual

/-- A part of a document. -/
inductive Item where
  | char (c : Char)
  | group (body : Document)
  | command (name : String) (args : Arguments)
  | environment (name : String) (body : Document)
  | note (key body : Text)

/-- The parts of a document in order. -/
inductive Document where
  | nil
  | cons (item : Item) (rest : Document)

/-- The arguments of a command, of which there is at least one. -/
inductive Arguments where
  | last (delimiter : Delimiter) (body : Document)
  | more (delimiter : Delimiter) (body : Document) (rest : Arguments)

end

/-! ### Printing -/

mutual

/-- The text of a part. -/
def Item.print : Item → Text
  | .char c => [c]
  | .group body => '{' :: (body.print ++ ['}'])
  | .command name args => '\\' :: (name.toList ++ args.print)
  | .environment name body => beginText name ++ (body.print ++ endText name)
  | .note key body => noteText key body

/-- The text of a document. -/
def Document.print : Document → Text
  | .nil => []
  | .cons item rest => item.print ++ rest.print

/-- The text of arguments. -/
def Arguments.print : Arguments → Text
  | .last delimiter body => delimiter.left :: (body.print ++ [delimiter.right])
  | .more delimiter body rest => delimiter.left :: (body.print ++ delimiter.right :: rest.print)

end

/-! ### Moving notes -/

/-- A document of one part. -/
def Document.single (item : Item) : Document :=
  .cons item .nil

/-- The parts of two documents one after the other. -/
def Document.append (doc more : Document) : Document :=
  match doc with
  | .nil => more
  | .cons item rest => .cons item (rest.append more)

/-- A document of notes. -/
def Document.ofNotes (notes : List (Text × Text)) : Document :=
  notes.foldr (fun note doc => .cons (.note note.1 note.2) doc) .nil

mutual

/-- What is left of a part when all notes are taken out. -/
def Item.strip : Item → Document
  | .char c => .single (.char c)
  | .group body => .single (.group body.strip)
  | .command name args => .single (.command name args.strip)
  | .environment name body => .single (.environment name body.strip)
  | .note _ _ => .nil

/-- The document without its notes. -/
def Document.strip : Document → Document
  | .nil => .nil
  | .cons item rest => item.strip.append rest.strip

/-- The arguments without the notes in them. -/
def Arguments.strip : Arguments → Arguments
  | .last delimiter body => .last delimiter body.strip
  | .more delimiter body rest => .more delimiter body.strip rest.strip

end

mutual

/-- The keys and bodies of the notes of a part, in order. -/
def Item.notes : Item → List (Text × Text)
  | .char _ => []
  | .group body => body.notes
  | .command _ args => args.notes
  | .environment _ body => body.notes
  | .note key body => [(key, body)]

/-- The notes of a document. -/
def Document.notes : Document → List (Text × Text)
  | .nil => []
  | .cons item rest => item.notes ++ rest.notes

/-- The notes of arguments. -/
def Arguments.notes : Arguments → List (Text × Text)
  | .last _ body => body.notes
  | .more _ body rest => body.notes ++ rest.notes

end

mutual

/-- What stands in place of a part: the notes under a restricted command or environment come right
after it. -/
def Item.relocate (contexts : Contexts) : Item → Document
  | .char c => .single (.char c)
  | .group body => .single (.group (body.relocate contexts))
  | .command name args =>
    if contexts.classify name = .restricted then
      .cons (.command name args.strip) (.ofNotes args.notes)
    else .single (.command name (args.relocate contexts))
  | .environment name body =>
    if contexts.isRestrictedEnvironment name then
      .cons (.environment name body.strip) (.ofNotes body.notes)
    else .single (.environment name (body.relocate contexts))
  | .note key body => .single (.note key body)

/-- The document with its notes moved out of restricted commands and environments. -/
def Document.relocate (contexts : Contexts) : Document → Document
  | .nil => .nil
  | .cons item rest => (item.relocate contexts).append (rest.relocate contexts)

/-- The arguments of a command that is not restricted, with the notes in each of them moved. -/
def Arguments.relocate (contexts : Contexts) : Arguments → Arguments
  | .last delimiter body => .last delimiter (body.relocate contexts)
  | .more delimiter body rest => .more delimiter (body.relocate contexts) (rest.relocate contexts)

end

@[simp] theorem Document.print_single (item : Item) : (single item).print = item.print := by
  rw [single, print, print, List.append_nil]

@[simp] theorem Document.print_append (doc more : Document) :
    (doc.append more).print = doc.print ++ more.print := by
  fun_induction doc.append more with
  | case1 => rfl
  | case2 item rest ih => rw [print, print, ih, List.append_assoc]

/-- The texts of notes. -/
def noteTexts (notes : List (Text × Text)) : List Text :=
  notes.map fun note => noteText note.1 note.2

@[simp] theorem noteTexts_append (notes more : List (Text × Text)) :
    noteTexts (notes ++ more) = noteTexts notes ++ noteTexts more :=
  List.map_append

theorem Document.print_ofNotes (notes : List (Text × Text)) :
    (ofNotes notes).print = (noteTexts notes).flatten := by
  induction notes with
  | nil => rfl
  | cons note notes ih => exact congrArg (noteText note.1 note.2 ++ ·) ih

/-! ### Well-formed trees -/

/-- A document with the given characters in front. -/
def Document.spaced (chars : Text) (doc : Document) : Document :=
  chars.foldr (fun c doc => .cons (.char c) doc) doc

/-- Where the document begins with white space and a bare group, at least two line feeds stand in
that white space and in the given `blanks` before it. -/
def Document.Separated (blanks : Text) (doc : Document) : Prop :=
  ∀ more body rest, doc = Document.spaced more (.cons (.group body) rest) →
    (∀ c ∈ more, isTexBlank c = true) → 2 ≤ (blanks ++ more).count '\n'

namespace Document

variable {blanks : Text} {doc : Document}

@[simp] theorem separated_nil : Separated blanks .nil := by
  intro more body rest h
  cases more <;> cases h

@[simp] theorem separated_char {c : Char} : Separated blanks (.cons (.char c) doc) ↔
    (isTexBlank c = true → doc.Separated (blanks ++ [c])) := by
  constructor
  · intro h hc more body rest hdoc hmore
    have hcount := h (c :: more) body rest (by rw [hdoc]; rfl)
      (List.forall_mem_cons.mpr ⟨hc, hmore⟩)
    rwa [List.append_assoc]
  · intro h more body rest hdoc hmore
    cases more with
    | nil => cases hdoc
    | cons d more =>
      obtain ⟨hc, hrest⟩ := cons.inj hdoc
      obtain rfl := Item.char.inj hc
      have hcount := h (hmore _ List.mem_cons_self) more body rest hrest
        fun e he => hmore e (List.mem_cons_of_mem _ he)
      rwa [List.append_assoc] at hcount

@[simp] theorem separated_group {body : Document} :
    Separated blanks (.cons (.group body) doc) ↔ 2 ≤ blanks.count '\n' := by
  constructor
  · intro h
    simpa using h [] body doc rfl (by simp)
  · intro h more inner rest hdoc _
    rw [List.count_append]
    omega

@[simp] theorem separated_command {name : String} {args : Arguments} :
    Separated blanks (.cons (.command name args) doc) := by
  intro more body rest h
  cases more <;> cases h

@[simp] theorem separated_environment {name : String} {body : Document} :
    Separated blanks (.cons (.environment name body) doc) := by
  intro more body rest h
  cases more <;> cases h

@[simp] theorem separated_note {key body : Text} :
    Separated blanks (.cons (.note key body) doc) := by
  intro more body rest h
  cases more <;> cases h

end Document

/-- Whether the part is a command with its arguments. -/
def Item.isCommand : Item → Bool
  | .command _ _ => true
  | _ => false

mutual

/-- A part that is read as it was written: its characters and names have no other meaning. -/
def Item.WellFormed : Item → Prop
  | .char c => Plain c
  | .group body => body.WellFormed
  | .command name args => CommandName name ∧ args.WellFormed
  | .environment name body => EnvironmentName name ∧ body.WellFormed
  | .note key body => (∀ c ∈ key, Inert c) ∧ ∀ c ∈ body, Inert c

/-- A document of well-formed parts in which no bare group stands where a further argument of a
command would. -/
def Document.WellFormed : Document → Prop
  | .nil => True
  | .cons item rest =>
    item.WellFormed ∧ (item.isCommand = true → rest.Separated []) ∧ rest.WellFormed

/-- Arguments with well-formed bodies. -/
def Arguments.WellFormed : Arguments → Prop
  | .last _ body => body.WellFormed
  | .more _ body rest => body.WellFormed ∧ rest.WellFormed

end

/-! ### Scanning printed trees -/

theorem Delimiter.stops_left (delimiter : Delimiter) (text : Text) :
    Stops Char.isAlpha (delimiter.left :: text) := by
  rw [stops_cons]
  cases delimiter <;> decide

/-- The text of arguments begins with the opening of the first one. -/
theorem Arguments.print_append (args : Arguments) (rest : Text) :
    ∃ delimiter text, args.print ++ rest = Delimiter.left delimiter :: text := by
  cases args with
  | last delimiter body => exact ⟨delimiter, _, rfl⟩
  | more delimiter body more => exact ⟨delimiter, _, rfl⟩

theorem inert_bracket : Inert '[' ∧ Inert ']' :=
  ⟨⟨by decide, by decide, by decide, by decide⟩, ⟨by decide, by decide, by decide, by decide⟩⟩

/-- A scan runs over an argument if it runs over what stands in it. -/
theorem Delimiter.closeGroup_argument (delimiter : Delimiter) {depth : Nat} (hdepth : 1 ≤ depth)
    {body rest : Text} (hbody : ∀ d, 1 ≤ d → closeGroup d (body ++ delimiter.right :: rest) =
      closeGroup d (delimiter.right :: rest)) :
    closeGroup depth (delimiter.left :: (body ++ delimiter.right :: rest)) =
      closeGroup depth rest := by
  cases delimiter with
  | brace =>
    rw [Delimiter.left, closeGroup, hbody _ (Nat.le_succ_of_le hdepth)]
    exact closeGroup_right hdepth rest
  | bracket =>
    rw [Delimiter.left, closeGroup_cons inert_bracket.1, hbody _ hdepth]
    exact closeGroup_cons inert_bracket.2 rest

/-- A bracketed argument that closes after an argument closes before or after it. -/
theorem Delimiter.bracketCloses_argument (delimiter : Delimiter) {body rest : Text}
    (hgroup : closeGroup 1 (body ++ '}' :: rest) = closeGroup 1 ('}' :: rest))
    (hbody : ∀ {text}, BracketCloses text → BracketCloses (body ++ text))
    (h : BracketCloses rest) :
    BracketCloses (delimiter.left :: (body ++ delimiter.right :: rest)) := by
  cases delimiter with
  | brace =>
    refine h.group ?_
    rw [Delimiter.right, hgroup, closeGroup, if_pos (Nat.le_refl 1)]
  | bracket => exact (hbody (bracketCloses_right rest)).cons inert_bracket.1

mutual

/-- A scan for the end of a group runs over a printed part to what follows it. -/
theorem Item.closeGroup_print {depth : Nat} (hdepth : 1 ≤ depth) : (item : Item) →
    item.WellFormed → ∀ rest, closeGroup depth (item.print ++ rest) = closeGroup depth rest
  | .char c, hc, rest => closeGroup_cons hc.toInert rest
  | .group body, hbody, rest => by
    rw [Item.print, List.cons_append, closeGroup, List.append_assoc, List.singleton_append,
      body.closeGroup_print (Nat.le_succ_of_le hdepth) hbody, closeGroup_right hdepth]
  | .command name args, ⟨hname, hargs⟩, rest => by
    obtain ⟨delimiter, text, htext⟩ := args.print_append rest
    rw [Item.print, List.cons_append, List.append_assoc, htext,
      closeGroup_word hname.nonempty hname.letters (delimiter.stops_left text), ← htext,
      args.closeGroup_print hdepth hargs]
  | .environment name body, ⟨hname, hbody⟩, rest => by
    rw [Item.print, List.append_assoc, closeGroup_beginText hdepth hname, List.append_assoc,
      body.closeGroup_print hdepth hbody, closeGroup_endText hdepth hname]
  | .note key body, ⟨hkey, hbody⟩, rest => closeGroup_noteText hdepth hkey hbody rest

theorem Document.closeGroup_print {depth : Nat} (hdepth : 1 ≤ depth) : (doc : Document) →
    doc.WellFormed → ∀ rest, closeGroup depth (doc.print ++ rest) = closeGroup depth rest
  | .nil, _, _ => rfl
  | .cons item doc, ⟨hitem, _, hdoc⟩, rest => by
    rw [Document.print, List.append_assoc, item.closeGroup_print hdepth hitem,
      doc.closeGroup_print hdepth hdoc]

theorem Arguments.closeGroup_print {depth : Nat} (hdepth : 1 ≤ depth) : (args : Arguments) →
    args.WellFormed → ∀ rest, closeGroup depth (args.print ++ rest) = closeGroup depth rest
  | .last delimiter body, hbody, rest => by
    rw [Arguments.print, List.cons_append, List.append_assoc, List.singleton_append]
    exact delimiter.closeGroup_argument hdepth fun d hd => body.closeGroup_print hd hbody _
  | .more delimiter body args, ⟨hbody, hargs⟩, rest => by
    rw [Arguments.print, List.cons_append, List.append_assoc, List.cons_append,
      delimiter.closeGroup_argument hdepth (fun d hd => body.closeGroup_print hd hbody _),
      args.closeGroup_print hdepth hargs]

end

mutual

/-- A bracketed argument that closes after a printed part closes before or after it. -/
theorem Item.bracketCloses_print : (item : Item) → item.WellFormed → ∀ {rest},
    BracketCloses rest → BracketCloses (item.print ++ rest)
  | .char c, hc, rest, h => h.cons hc.toInert
  | .group body, hbody, rest, h => by
    rw [Item.print, List.cons_append, List.append_assoc, List.singleton_append]
    refine h.group ?_
    rw [body.closeGroup_print (Nat.le_refl 1) hbody, closeGroup, if_pos (Nat.le_refl 1)]
  | .command name args, ⟨hname, hargs⟩, rest, h => by
    have hclose := args.bracketCloses_print hargs h
    obtain ⟨delimiter, text, htext⟩ := args.print_append rest
    rw [Item.print, List.cons_append, List.append_assoc, htext]
    rw [htext] at hclose
    exact hclose.word hname.nonempty hname.letters (delimiter.stops_left text)
  | .environment name body, ⟨hname, hbody⟩, rest, h => by
    rw [Item.print, List.append_assoc, List.append_assoc]
    exact bracketCloses_beginText hname
      (body.bracketCloses_print hbody (bracketCloses_endText hname h))
  | .note key body, ⟨hkey, hbody⟩, rest, h => bracketCloses_noteText hkey hbody h

theorem Document.bracketCloses_print : (doc : Document) → doc.WellFormed → ∀ {rest},
    BracketCloses rest → BracketCloses (doc.print ++ rest)
  | .nil, _, _, h => h
  | .cons item doc, ⟨hitem, _, hdoc⟩, rest, h => by
    rw [Document.print, List.append_assoc]
    exact item.bracketCloses_print hitem (doc.bracketCloses_print hdoc h)

theorem Arguments.bracketCloses_print : (args : Arguments) → args.WellFormed → ∀ {rest},
    BracketCloses rest → BracketCloses (args.print ++ rest)
  | .last delimiter body, hbody, rest, h => by
    rw [Arguments.print, List.cons_append, List.append_assoc, List.singleton_append]
    exact delimiter.bracketCloses_argument (body.closeGroup_print (Nat.le_refl 1) hbody _)
      (fun h => body.bracketCloses_print hbody h) h
  | .more delimiter body args, ⟨hbody, hargs⟩, rest, h => by
    rw [Arguments.print, List.cons_append, List.append_assoc, List.cons_append]
    exact delimiter.bracketCloses_argument (body.closeGroup_print (Nat.le_refl 1) hbody _)
      (fun h => body.bracketCloses_print hbody h) (args.bracketCloses_print hargs h)

end

end Marginalia.Relocation
