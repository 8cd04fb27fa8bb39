import Marginalia.Export
import Marginalia.Proofs.Nesting.Bare
import Marginalia.Proofs.Nesting.Rendering

/-! # Exports that succeed

Compiling a converted text fails only where the marks are not those of the highlights in place, or
where the relocation pass rejects the rendered text.  Let the regions of the text be rows of atoms
(`Region.Rows`).  Notes and wrappers, wherever they come to stand in rows that nest, leave them
nested, so the pass accepts what is rendered from them (`relocate_rendered`).  If no bracket opens in
the rows, they nest wherever the pass accepts the text without its marks; if brackets open, those that
may become arguments have to nest as well (`compile_ok`).

That every mark stands between two atoms and the pass accepts the text without its marks is not
enough: the white space that is set apart at the end of running text can take the character of a
control symbol with it, and the escape that is left takes the brace of the wrapper (`not_compile_ok`).
-/
namespace Marginalia

open Text Latex Relocation

variable {state : Segmenter} {regions : List Region} {rows : List (List Atom)} {tokens : List Token}

/-! ### The text without its marks -/

namespace Region

/-- Rows of atoms that are what they seem, each of which spells the text of its region: every mark
stands between two atoms. -/
structure Spelled (regions : List Region) (rows : List (List Atom)) : Prop where
  texts : List.Forall₂ (fun region atoms => spell atoms = region.text) regions rows
  wellSpelled : WellSpelled rows.flatten

theorem Rows.spell_flatten (h : Rows state regions rows) :
    spell rows.flatten = regions.flatMap Region.text := by
  induction h with
  | nil => rfl
  | cons hrow _ _ ih =>
    rw [List.flatten_cons, spell_append, hrow.text, ih, List.flatMap_cons]

/-- The rows of a text spell it without its marks. -/
theorem Rows.spell_literals (h : Rows state (ofTokens tokens) rows) :
    spell rows.flatten = Token.literals tokens :=
  h.spell_flatten.trans (texts_ofTokensFrom .empty [] tokens)

end Region

namespace Exporter

variable {exporter : Exporter} {converted : Text} {injected : Injected}

/-- The keys of the colours that an exporter uses are keys. -/
theorem keyed_styles (exporter : Exporter) (placed : List Placed) :
    Rendering.Keyed ⟨placed.toArray, exporter.styles placed⟩ :=
  Rendering.keyed_ofPlaced exporter.tags exporter.settings.style placed

/-- What compiling gives once the marks are read back and the pass accepts the rendered text. -/
theorem compile_of_relocate_ok (hread : readBack converted injected.placed.length = .ok tokens)
    {body : Text}
    (hbody : (relocate exporter.contexts (Rendering.textOf
      (Rendering.regions ⟨injected.placed.toArray, exporter.styles injected.placed⟩
        (Region.ofTokens tokens)).flatten)).result = .ok body) :
    (exporter.compile converted injected).result =
      .ok ⟨exporter.assemble (exporter.styles injected.placed) body, injected.skipped,
        (Region.ofTokens tokens).length⟩ := by
  unfold compile
  simp only [hread, hbody]

/-- The pass accepts what is rendered from rows that nest. -/
theorem relocate_rendered (exporter : Exporter) (placed : List Placed)
    (hrows : Region.Rows .start regions rows) (hspelled : WellSpelled rows.flatten) {isReady : Bool}
    (hnest : Nesting.start.nest rows.flatten = some ⟨[], isReady⟩) :
    ∃ body, (relocate exporter.contexts (Rendering.textOf
      (Rendering.regions ⟨placed.toArray, exporter.styles placed⟩ regions).flatten)).result =
        .ok body := by
  obtain ⟨dressed, hdressed, hspell⟩ :=
    Rendering.dressed_regionsFrom (exporter.keyed_styles placed) hrows hspelled
  obtain ⟨⟨groups, isReady'⟩, hlast, hbelow⟩ := hdressed.nest (Nesting.below_self .start) hnest
  -- Wrappers leave no more open than there was, which is nothing.
  obtain rfl : groups = [] := hbelow.groups.of_nil
  obtain ⟨body, hbody⟩ :=
    Nesting.relocate_ok_of_nest (hdressed.wellSpelled hspelled) hlast exporter.contexts
  rw [hspell] at hbody
  exact ⟨body, hbody⟩

/-- **Highlighting breaks no document that exports without it**, as far as its brackets nest.  If the
marks of a converted text are those of the highlights in place, its regions are rows of atoms, the
pass accepts the text without its marks, and either no bracket opens in it and its verbatim text is
balanced or the rows together nest, then the text compiles. -/
theorem compile_ok (exporter : Exporter)
    (hread : readBack converted injected.placed.length = .ok tokens)
    (hrows : Region.Rows .start (Region.ofTokens tokens) rows) (hspelled : WellSpelled rows.flatten)
    (haccepts : ∃ out, (relocate exporter.contexts (Token.literals tokens)).result = .ok out)
    (hnests : (∀ atom ∈ rows.flatten, atom.IsBare) ∨
      ∃ isReady, Nesting.start.nest rows.flatten = some ⟨[], isReady⟩) :
    ∃ exported, (exporter.compile converted injected).result = .ok exported := by
  have hnest : ∃ isReady, Nesting.start.nest rows.flatten = some ⟨[], isReady⟩ := by
    rcases hnests with hbare | hnest
    · -- Without brackets, the pass itself tells that the rows nest.
      rw [← hrows.spell_literals] at haccepts
      exact (Nesting.relocate_ok_iff_nest hspelled hbare exporter.contexts).mp haccepts
    · exact hnest
  obtain ⟨isReady, hnest⟩ := hnest
  obtain ⟨body, hbody⟩ := relocate_rendered exporter injected.placed hrows hspelled hnest
  exact ⟨_, compile_of_relocate_ok hread hbody⟩

/-! ### One highlight -/

/-- An exporter with the standard settings and no tags. -/
def standard : Exporter :=
  ⟨.standard, [], false⟩

/-- A text with one highlight over its first characters. -/
def injectedOver (markup : String) (stop : Nat) : Injected :=
  standard.inject markup.toList [⟨"", 0, stop, "", "", ⟨0, 0, 0⟩, [], none⟩]

/-- A highlighted bracket behind the opening brace of an argument. -/
theorem compile_ok_bracket :
    ∃ exported, (standard.compile "\\emph\x7bANNMARKER0ENDMARKERHLSTART0ENDHLx[y]HLEND0ENDHL\x7d".toList
      (injectedOver "x[y]" 4)).result = .ok exported := by
  have hread : readBack "\\emph\x7bANNMARKER0ENDMARKERHLSTART0ENDHLx[y]HLEND0ENDHL\x7d".toList
      (injectedOver "x[y]" 4).placed.length = .ok [.text "\\emph\x7b".toList, .mark .anchor 0,
        .text [], .mark .start 0, .text "x[y]".toList, .mark .stop 0, .text ['\x7d']] := by
    decide +kernel
  have hemph : (Atom.word false "emph").Stands "\x7bx[y]\x7d".toList :=
    ⟨by decide, by decide, by decide, by decide, stops_cons.mpr (by decide),
      Verbatim.begins?_word (by decide) (by decide) (stops_cons.mpr (by decide))⟩
  have hrows : List.Forall₂ Region.Row
      (Region.ofTokens [.text "\\emph\x7b".toList, .mark .anchor 0, .text [], .mark .start 0,
        .text "x[y]".toList, .mark .stop 0, .text ['\x7d']])
      [[.word false "emph", .char false '\x7b'], [], "x[y]".toList.map (Atom.char true),
        [.char false '\x7d']] := by
    refine .cons ⟨rfl, absurd rfl, absurd rfl⟩ (.cons ⟨rfl, absurd rfl, absurd rfl⟩
      (.cons ⟨rfl, fun _ => ?_, fun _ => ?_⟩ (.cons ⟨rfl, absurd rfl, absurd rfl⟩ .nil)))
    · simp [Atom.IsLit]
    · exact ⟨trivial, trivial, trivial, trivial, trivial⟩
  have hspelled : WellSpelled [.word false "emph", .char false '\x7b', .char true 'x',
      .char true '[', .char true 'y', .char true ']', .char false '\x7d'] := by
    refine ⟨hemph, ?_, ?_, ?_, ?_, ?_, ?_, trivial⟩ <;> exact ⟨by decide, by decide⟩
  have hscanned : Scanned [.word false "emph", .char false '\x7b', .char true 'x',
      .char true '[', .char true 'y', .char true ']', .char false '\x7d'] :=
    ⟨hspelled, by simp [Atom.IsScanned]⟩
  have haccepts : (relocate standard.contexts "\\emph\x7bx[y]\x7d".toList).result =
      .ok "\\emph\x7bx[y]\x7d".toList := by decide +kernel
  exact compile_ok standard hread (Region.rows_of_scanned Segmenter.isReadable_start hrows hscanned)
    hspelled ⟨_, haccepts⟩ (.inr ⟨true, by decide⟩)

/-- Behind a control space, the line feed that is set apart takes the space with it. -/
theorem not_compile_ok :
    ¬ ∀ (exporter : Exporter) (converted : Text) (injected : Injected) (tokens : List Token)
      (rows : List (List Atom)), readBack converted injected.placed.length = .ok tokens →
      Region.Spelled (Region.ofTokens tokens) rows →
      (∃ out, (relocate exporter.contexts (Token.literals tokens)).result = .ok out) →
      ∃ exported, (exporter.compile converted injected).result = .ok exported := by
  intro h
  have hread : readBack "ANNMARKER0ENDMARKERHLSTART0ENDHLa\\ \nHLEND0ENDHLb".toList
      (injectedOver "a\nb" 2).placed.length = .ok [.mark .anchor 0, .text [], .mark .start 0,
        .text "a\\ \n".toList, .mark .stop 0, .text ['b']] := by decide +kernel
  have hspelled : Region.Spelled
      (Region.ofTokens [.mark .anchor 0, .text [], .mark .start 0, .text "a\\ \n".toList,
        .mark .stop 0, .text ['b']])
      [[], [.char true 'a', .symbol true ' ', .char true '\n'], [.char false 'b']] :=
    ⟨.cons rfl (.cons rfl (.cons rfl .nil)), ⟨by decide, by decide⟩,
      (show Char.isAlpha ' ' = false by decide), ⟨by decide, by decide⟩, ⟨by decide, by decide⟩,
      trivial⟩
  have haccepts : (relocate standard.contexts "a\\ \nb".toList).result = .ok "a\\ \nb".toList := by
    decide +kernel
  have hrejects : (standard.compile "ANNMARKER0ENDMARKERHLSTART0ENDHLa\\ \nHLEND0ENDHLb".toList
      (injectedOver "a\nb" 2)).result.isOk = false := by decide +kernel
  obtain ⟨exported, hexported⟩ := h standard _ _ _ _ hread hspelled ⟨_, haccepts⟩
  rw [hexported] at hrejects
  cases hrejects

end Exporter

end Marginalia
