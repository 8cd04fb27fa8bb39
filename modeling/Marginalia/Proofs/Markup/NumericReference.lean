import Marginalia.Proofs.Markup.HiddenElement
import Marginalia.Proofs.Markup.TextNode
import Marginalia.Proofs.Numeral

/-! # Numeric references

A numeric reference writes the code point of a character in decimal or hexadecimal digits.  It is read
exactly if its semicolon comes among the first characters behind the number sign
(`numericReference_exact`): a reference with many zeros in front of its digits is none
(`not_numericReference_exact`).  In a text between tags it shows its character, and a number sign that
begins no reference shows itself, with the text behind it.

Whether the ampersand is reached does not depend on what comes before it in the text, because no
reference reads over an ampersand (`atoms_append_ampersand`).
-/
namespace Marginalia.Markup

open Text Piece

namespace Reference

/-! ### Digits of a reference -/

/-- The text between the number sign and the semicolon of a reference gives the number. -/
inductive Spells : Text → Nat → Prop where
  | decimal {digits : Text} {n : Nat} (h : Numeral 10 digits n) : Spells digits n
  | hexadecimal {c : Char} {digits : Text} {n : Nat} (hc : c = 'x' ∨ c = 'X')
    (h : Numeral 16 digits n) : Spells (c :: digits) n

/-- A plus sign stands where digits should. -/
def Signed (text : Text) : Prop :=
  ∃ front ∈ ["+", "x+", "X+"], front.toList <+: text

instance (text : Text) : Decidable (Signed text) :=
  inferInstanceAs (Decidable (∃ front ∈ ["+", "x+", "X+"], front.toList <+: text))

/-- The text begins with what gives the character, and a semicolon close enough to the number sign. -/
structure Writes (text spelling : Text) (c : Char) : Prop where
  front : spelling ++ [';'] <+: text
  spells : Spells spelling c.toNat
  close : spelling.length < numericReach

variable {text digits : Text} {n : Nat} {c : Char} {reference : Reference}

theorem Spells.isAlphanum (h : Spells digits n) : ∀ c ∈ digits, c.isAlphanum = true := by
  cases h with
  | decimal h => exact h.isAlphanum (by decide)
  | hexadecimal hc h =>
    refine List.forall_mem_cons.mpr ⟨?_, h.isAlphanum (by decide)⟩
    rcases hc with rfl | rfl <;> decide

theorem Signed.mono (h : Signed digits) (htext : digits <+: text) : Signed text := by
  obtain ⟨front, hfront, hdigits⟩ := h
  exact ⟨front, hfront, hdigits.trans htext⟩

/-- Digits come in base sixteen behind an `x`, and in base ten where there is none. -/
theorem code?_cases (digits : Text) :
    (∃ c after, (c = 'x' ∨ c = 'X') ∧ digits = c :: after ∧ code? digits = number? 16 after) ∨
      (∀ c after, digits = c :: after → ¬ (c = 'x' ∨ c = 'X')) ∧ code? digits = number? 10 digits := by
  unfold code?
  split
  · next after => exact .inl ⟨'x', after, .inl rfl, rfl, rfl⟩
  · next after => exact .inl ⟨'X', after, .inr rfl, rfl, rfl⟩
  · next hlower hupper =>
    refine .inr ⟨?_, rfl⟩
    rintro c after rfl (rfl | rfl)
    · exact hlower after rfl
    · exact hupper after rfl

theorem code?_eq_some (h : ¬ Signed digits) : code? digits = some n ↔ Spells digits n := by
  rcases code?_cases digits with ⟨c, after, hc, rfl, hcode⟩ | ⟨hne, hcode⟩
  · rw [hcode, number?_eq_some (by decide)]
    constructor
    · rintro (hafter | ⟨rest, rfl, -⟩)
      · exact .hexadecimal hc hafter
      · refine absurd ?_ h
        rcases hc with rfl | rfl
        · exact ⟨"x+", by decide, rest, rfl⟩
        · exact ⟨"X+", by decide, rest, rfl⟩
    · intro hspells
      cases hspells with
      | decimal hdecimal =>
        -- An `x` is no decimal digit.
        obtain ⟨d, hd, hchar⟩ := hdecimal.isDigit c List.mem_cons_self
        have hall : ∀ d < 10, ∀ c ∈ ['x', 'X'], ¬ (c = Nat.digitChar d ∨
            c = (Nat.digitChar d).toUpper) := by decide
        exact absurd hchar (hall d hd c (by simpa using hc))
      | hexadecimal _ hafter => exact .inl hafter
  · rw [hcode, number?_eq_some (by decide)]
    constructor
    · rintro (hdigits | ⟨rest, rfl, -⟩)
      · exact .decimal hdigits
      · exact absurd ⟨"+", by decide, rest, rfl⟩ h
    · intro hspells
      cases hspells with
      | decimal hdigits => exact .inl hdigits
      | hexadecimal hc _ => exact absurd hc (hne _ _ rfl)

theorem ne_ampersand_of_code? (h : code? digits = some n) : '&' ∉ digits := by
  have hnumber {base : Nat} {digits : Text} (hbase : base ≤ 16) (h : number? base digits = some n) :
      '&' ∉ digits := by
    intro hmem
    rcases (number?_eq_some hbase).mp h with hdigits | ⟨after, rfl, hafter⟩
    · exact absurd (hdigits.isAlphanum hbase _ hmem) (by decide)
    · have hmem' : '&' ∈ after := (List.mem_cons.mp hmem).resolve_left (by decide)
      exact absurd (hafter.isAlphanum hbase _ hmem') (by decide)
  rcases code?_cases digits with ⟨c, after, hc, rfl, hcode⟩ | ⟨-, hcode⟩
  · rw [hcode] at h
    refine List.not_mem_cons_of_ne_of_not_mem ?_ (hnumber (by decide) h)
    rcases hc with rfl | rfl <;> decide
  · rw [hcode] at h
    exact hnumber (by decide) h

/-! ### Reading a reference -/

/-- The digits run up to the semicolon. -/
theorem digits_append_isPrefix (h : ';' ∈ text) : text.takeWhile (· != ';') ++ [';'] <+: text := by
  have hsplit := @List.takeWhile_append_dropWhile _ (· != ';') text
  have hstop := stops_dropWhile (· != ';') text
  cases hrest : text.dropWhile (· != ';') with
  | nil =>
    rw [hrest, List.append_nil] at hsplit
    rw [← hsplit] at h
    simpa using List.all_eq_true.mp List.all_takeWhile _ h
  | cons c rest =>
    rw [hrest, stops_cons, bne_eq_false_iff_eq] at hstop
    subst hstop
    rw [hrest] at hsplit
    exact ⟨rest, by rw [List.append_assoc]; exact hsplit⟩

theorem numeric?_eq_some (h : ¬ Signed text) : numeric? text = some reference ↔
    ∃ spelling c, Writes text spelling c ∧ reference = ⟨[c], spelling.length + 2⟩ := by
  constructor
  · intro hread
    obtain ⟨hmem, -⟩ := length_of_numeric? hread
    have hfront := digits_append_isPrefix hmem
    unfold numeric? at hread
    obtain ⟨_, -, hread⟩ := Option.bind_eq_some_iff.mp hread
    obtain ⟨n, hcode, hread⟩ := Option.bind_eq_some_iff.mp hread
    obtain ⟨c, hc, hread⟩ := Option.bind_eq_some_iff.mp hread
    have hunsigned : ¬ Signed ((text.take numericReach).takeWhile (· != ';')) := fun hsigned =>
      h (hsigned.mono ((List.takeWhile_prefix _).trans (List.take_prefix _ _)))
    refine ⟨_, c, ⟨hfront.trans (List.take_prefix _ _), ?_, ?_⟩, (Option.some.inj hread).symm⟩
    · rw [scalar?_eq_some.mp hc]
      exact (code?_eq_some hunsigned).mp hcode
    · have hlength := hfront.length_le
      have hreach := List.length_take_le numericReach text
      rw [List.length_append, List.length_singleton] at hlength
      omega
  · rintro ⟨spelling, c, ⟨⟨rest, rfl⟩, hspells, hclose⟩, rfl⟩
    have hunsigned : ¬ Signed spelling := fun hsigned =>
      h (hsigned.mono ((List.prefix_append _ _).trans (List.prefix_append _ _)))
    have htake : (spelling ++ [';']).take numericReach = spelling ++ [';'] :=
      List.take_of_length_le (by rw [List.length_append]; exact hclose)
    have hword : ∀ d ∈ spelling, (d != ';') = true := by
      intro d hd
      rw [bne_iff_ne]
      rintro rfl
      exact absurd (hspells.isAlphanum _ hd) (by decide)
    have hdigits : (spelling ++ [';']).takeWhile (· != ';') = spelling :=
      (takeWhile_append_stop hword (stops_cons.mpr (by decide))).1
    rw [numeric?_append_of_mem (by rw [htake]; simp), numeric?, htake, hdigits,
      (code?_eq_some hunsigned).mpr hspells]
    have hscalar : scalar? c.toNat = some c := scalar?_eq_some.mpr rfl
    simp [hscalar]

/-! ### References in front of an ampersand -/

theorem nameRun_append_ampersand (text back : Text) :
    nameRun (text ++ '&' :: back) = nameRun text := by
  by_cases h : nameRun text = text
  · rw [nameRun_append_of_eq h, h]
    cases longestName - text.length with
    | zero => simp
    | succ k => rw [List.take_succ_cons, List.takeWhile_cons_of_neg (by decide), List.append_nil]
  · exact nameRun_append_of_ne h _

theorem named?_append_ampersand (find? : Text → Option Text) (text back : Text) :
    named? find? (text ++ '&' :: back) = named? find? text := by
  have hle := (isPrefix_nameRun text).length_le
  have hhead : ((text ++ '&' :: back).drop (nameRun text).length).head? = some ';' ↔
      (text.drop (nameRun text).length).head? = some ';' := by
    rw [List.drop_append_of_le_length hle]
    cases text.drop (nameRun text).length <;> simp
  have hlongest : longest? find? (text ++ '&' :: back) (nameRun text).length =
      longest? find? text (nameRun text).length :=
    longest?_congr (List.take_append_of_le_length hle)
  rw [named?_eq, named?_eq, nameRun_append_ampersand, hlongest]
  simp only [hhead]

theorem numeric?_append_ampersand (text back : Text) :
    numeric? (text ++ '&' :: back) = numeric? text := by
  by_cases hmem : ';' ∈ text.take numericReach
  · exact numeric?_append_of_mem hmem _
  · have hnew : numeric? (text ++ '&' :: back) = none := by
      by_contra hsome
      obtain ⟨reference, hreference⟩ := Option.ne_none_iff_exists'.mp hsome
      obtain ⟨hsemicolon, -⟩ := length_of_numeric? hreference
      unfold numeric? at hreference
      obtain ⟨_, -, hreference⟩ := Option.bind_eq_some_iff.mp hreference
      obtain ⟨n, hcode, -⟩ := Option.bind_eq_some_iff.mp hreference
      refine ne_ampersand_of_code? hcode ?_
      -- The semicolon comes behind the ampersand.
      rw [List.take_append] at hsemicolon ⊢
      have hfront : ∀ c ∈ text.take numericReach, (c != ';') = true := by
        intro c hc
        rw [bne_iff_ne]
        rintro rfl
        exact hmem hc
      rw [List.takeWhile_append_of_pos hfront]
      refine List.mem_append_right _ ?_
      have hback := (List.mem_append.mp hsemicolon).resolve_left hmem
      cases hreach : numericReach - text.length with
      | zero =>
        rw [hreach] at hback
        cases hback
      | succ k =>
        rw [List.take_succ_cons, List.takeWhile_cons_of_pos (by decide)]
        exact List.mem_cons_self
    rw [hnew, numeric?_eq_none hmem]

theorem read?_append_ampersand (text back : Text) :
    read? (text ++ '&' :: back) = read? text := by
  cases text with
  | nil =>
    rw [List.nil_append, read?_eq_named? (by simp), read?_eq_named? (by simp)]
    exact named?_append_ampersand _ [] back
  | cons c text =>
    by_cases hc : c = '#'
    · subst hc
      exact numeric?_append_ampersand text back
    · have hhead (tail : Text) : (c :: tail).head? ≠ some '#' := fun h => hc (Option.some.inj h)
      rw [List.cons_append, read?_eq_named? (hhead _), read?_eq_named? (hhead _)]
      exact named?_append_ampersand _ (c :: text) back

end Reference

/-- No reference reads over an ampersand. -/
theorem atoms_append_ampersand (front back : Text) :
    atoms (front ++ '&' :: back) = atoms front ++ atoms ('&' :: back) := by
  fun_induction atoms front with
  | case1 => rfl
  | case2 c text reference hread ih =>
    have hread' : (if c = '&' then Reference.read? (text ++ '&' :: back) else none) =
        some reference := by
      rw [Reference.read?_append_ampersand]
      exact hread
    have hle : reference.length ≤ text.length := by
      split at hread
      · exact (Reference.length_of_read? hread).2
      · cases hread
    rw [List.cons_append, atoms, hread']
    dsimp only
    rw [List.take_append_of_le_length hle, List.drop_append_of_le_length hle, ih, List.cons_append]
  | case3 c text hread ih =>
    have hread' : (if c = '&' then Reference.read? (text ++ '&' :: back) else none) = none := by
      rw [Reference.read?_append_ampersand]
      exact hread
    rw [List.cons_append, atoms, hread']
    dsimp only
    rw [ih, List.cons_append]

/-! ### What a text node shows -/

/-- The units that come from bytes between `start` and `stop`. -/
def unitsIn (units : List VisibleUnit) (start stop : Nat) : List VisibleUnit :=
  units.filter fun unit => unit.start < stop && start < unit.stop

/-- Behind `before` the markup has a source that shows one character: a unit of its own or, if white
space is collapsed, the unit of a run that it belongs to. -/
def ShowsAt (mode : Whitespace) (markup before source : Text) (c : Char) : Prop :=
  let start := before.byteLength
  let stop := (before ++ source).byteLength
  if mode = .collapse ∧ isMarkupBlank c = true then
    ∃ first last, first ≤ start ∧ stop ≤ last ∧
      unitsIn (visibleUnits mode markup) start stop = [⟨' ', first, last⟩]
  else unitsIn (visibleUnits mode markup) start stop = [⟨c, start, stop⟩]

/-- A text between tags, or before the first one or behind the last one, that follows `before`. -/
structure TextNode (mode : Whitespace) (markup before node after : Text) : Prop where
  split : markup = before ++ (node ++ after)
  reads : ReadsTo mode markup (node ++ after)
  ends : EndsAtTag node after

variable {mode : Whitespace} {markup before node after source : Text} {ps qs : List Piece}
  {piece : Piece} {start stop : Nat} {c : Char}

/-- Bytes within a piece show what the piece shows. -/
theorem unitsIn_units (hstart : (sources ps).byteLength ≤ start) (hlt : start < stop)
    (hstop : stop ≤ (sources ps ++ piece.source).byteLength) :
    unitsIn (units (ps ++ piece :: qs)) start stop =
      piece.shown.map (⟨·, (sources ps).byteLength, (sources ps ++ piece.source).byteLength⟩) := by
  rw [byteLength_append] at hstop ⊢
  have hbefore : (unitsFrom 0 ps).filter (fun unit => unit.start < stop && start < unit.stop) = [] := by
    refine List.filter_eq_nil_iff.mpr fun unit hunit => ?_
    have hle := stop_le_of_mem_unitsFrom hunit
    simp only [Bool.and_eq_true, decide_eq_true_iff]
    omega
  have hafter : (unitsFrom ((sources ps).byteLength + piece.source.byteLength) qs).filter
      (fun unit => unit.start < stop && start < unit.stop) = [] := by
    refine List.filter_eq_nil_iff.mpr fun unit hunit => ?_
    have hle := le_start_of_mem_unitsFrom hunit
    simp only [Bool.and_eq_true, decide_eq_true_iff]
    omega
  rw [unitsIn, units, unitsFrom_append, Nat.zero_add, unitsFrom, List.filter_append,
    List.filter_append, hbefore, hafter, List.nil_append, List.append_nil, List.filter_eq_self]
  intro unit hunit
  obtain ⟨c, -, rfl⟩ := List.mem_map.mp hunit
  simp only [Bool.and_eq_true, decide_eq_true_iff]
  omega

/-- Pieces come out of collapsing with the run of white space that is under way behind them. -/
theorem exists_collapse_append (run : Text) (ps qs : List Piece) : ∃ done run',
    collapse run (ps ++ qs) = done ++ collapse run' qs ∧ sources done ++ run' = run ++ sources ps := by
  induction ps generalizing run with
  | nil => exact ⟨[], run, rfl, by simp⟩
  | cons piece ps ih =>
    by_cases hblank : piece.isBlank = true
    · obtain ⟨done, run', hcollapse, hsources⟩ := ih (run ++ piece.source)
      refine ⟨done, run', ?_, ?_⟩
      · rw [List.cons_append, collapse, if_pos hblank, hcollapse]
      · rw [hsources, sources_cons, List.append_assoc]
    · rw [Bool.not_eq_true] at hblank
      obtain ⟨done, run', hcollapse, hsources⟩ := ih []
      refine ⟨blankPiece run ++ piece :: done, run', ?_, ?_⟩
      · rw [List.cons_append, collapse_cons run hblank, hcollapse]
        simp
      · rw [sources_append, sources_cons, sources_blankPiece, List.append_assoc, List.append_assoc,
          hsources]
        rfl

/-- A run of white space becomes one piece. -/
theorem exists_collapse_run {run : Text} (h : run ≠ []) (qs : List Piece) :
    ∃ more rest, collapse run qs = ⟨run ++ more, [' ']⟩ :: rest := by
  induction qs generalizing run with
  | nil => exact ⟨[], [], by simp [collapse, blankPiece, h]⟩
  | cons piece qs ih =>
    by_cases hblank : piece.isBlank = true
    · obtain ⟨more, rest, hcollapse⟩ := ih (List.append_ne_nil_of_left_ne_nil h piece.source)
      refine ⟨piece.source ++ more, rest, ?_⟩
      rw [collapse, if_pos hblank, hcollapse, List.append_assoc]
    · rw [Bool.not_eq_true] at hblank
      exact ⟨[], piece :: collapse [] qs, by rw [collapse_cons run hblank]; simp [blankPiece, h]⟩

/-- An atom that is not taken into a run of white space is a piece itself. -/
theorem exists_textPieces_alone (hatoms : atoms node = ps ++ ⟨source, [c]⟩ :: qs)
    (hlayout : isLayout node = false) (hc : ¬ (mode = .collapse ∧ isMarkupBlank c = true)) :
    ∃ done rest, textPieces mode node = done ++ ⟨source, [c]⟩ :: rest ∧ sources done = sources ps := by
  cases mode with
  | preserve => exact ⟨ps, qs, hatoms, rfl⟩
  | collapse =>
    have hpiece : Piece.isBlank ⟨source, [c]⟩ = false :=
      Bool.eq_false_iff.mpr fun hblank => hc ⟨rfl, hblank⟩
    obtain ⟨done, run, hcollapse, hdone⟩ := exists_collapse_append [] ps (⟨source, [c]⟩ :: qs)
    refine ⟨done ++ blankPiece run, collapse [] qs, ?_, ?_⟩
    · rw [textPieces, hlayout, hatoms, if_neg Bool.false_ne_true, hcollapse,
        collapse_cons run hpiece, List.append_assoc]
    · rw [sources_append, sources_blankPiece, hdone]
      rfl

/-- White space is taken into a run of it. -/
theorem exists_textPieces_run (hatoms : atoms node = ps ++ ⟨source, [c]⟩ :: qs)
    (hlayout : isLayout node = false) (hc : isMarkupBlank c = true) (hsource : source ≠ []) :
    ∃ done run more rest,
      textPieces .collapse node = done ++ ⟨run ++ source ++ more, [' ']⟩ :: rest ∧
        sources done ++ run = sources ps := by
  have hpiece : Piece.isBlank ⟨source, [c]⟩ = true := hc
  obtain ⟨done, run, hcollapse, hdone⟩ := exists_collapse_append [] ps (⟨source, [c]⟩ :: qs)
  obtain ⟨more, rest, hrun⟩ :=
    exists_collapse_run (List.append_ne_nil_of_right_ne_nil run hsource) qs
  refine ⟨done, run, more, rest, ?_, hdone⟩
  rw [textPieces, hlayout, hatoms, if_neg Bool.false_ne_true, hcollapse, collapse, if_pos hpiece, hrun]

namespace TextNode

/-- The pieces of a marked-up text are those of a text node between others. -/
theorem exists_pieces (h : TextNode mode markup before node after) : ∃ front back,
    pieces mode markup = front ++ (textPieces mode node ++ back) ∧ sources front = before := by
  obtain ⟨front, hpieces, hmarkup⟩ := h.reads.exists_pieces
  rw [h.ends.pieces] at hpieces
  rw [h.split] at hmarkup
  exact ⟨front, _, hpieces, (List.append_cancel_right hmarkup).symm⟩

/-- Bytes within a piece of a text node show what the piece shows. -/
theorem unitsIn_visibleUnits (h : TextNode mode markup before node after)
    (htext : textPieces mode node = ps ++ piece :: qs)
    (hstart : (before ++ sources ps).byteLength ≤ start) (hlt : start < stop)
    (hstop : stop ≤ (before ++ sources ps ++ piece.source).byteLength) :
    unitsIn (visibleUnits mode markup) start stop = piece.shown.map
      (⟨·, (before ++ sources ps).byteLength, (before ++ sources ps ++ piece.source).byteLength⟩) := by
  obtain ⟨front, back, hpieces, rfl⟩ := h.exists_pieces
  rw [← sources_append] at hstart hstop ⊢
  rw [visibleUnits, hpieces, htext, List.append_assoc, List.cons_append, ← List.append_assoc]
  exact unitsIn_units hstart hlt hstop

/-- An atom of a text node that shows one character shows it in the marked-up text. -/
theorem showsAt (h : TextNode mode markup before node after)
    (hatoms : atoms node = ps ++ ⟨source, [c]⟩ :: qs) (hlayout : isLayout node = false) :
    ShowsAt mode markup (before ++ sources ps) source c := by
  have hmem : ⟨source, [c]⟩ ∈ atoms node := by
    rw [hatoms]
    exact List.mem_append_right ps List.mem_cons_self
  have hsource : source ≠ [] := source_ne_nil_of_mem_atoms hmem
  have hlt : (before ++ sources ps).byteLength < (before ++ sources ps ++ source).byteLength := by
    rw [byteLength_append _ source]
    exact Nat.lt_add_of_pos_right (byteLength_pos hsource)
  unfold ShowsAt
  dsimp only
  by_cases hc : mode = .collapse ∧ isMarkupBlank c = true
  · obtain ⟨rfl, hblank⟩ := hc
    rw [if_pos ⟨rfl, hblank⟩]
    obtain ⟨done, run, more, rest, htext, hdone⟩ :=
      exists_textPieces_run hatoms hlayout hblank hsource
    rw [← hdone] at hlt ⊢
    -- The run begins before the atom and goes on behind it.
    have hfirst : (before ++ sources done).byteLength ≤
        (before ++ (sources done ++ run)).byteLength := by
      simp only [byteLength_append]
      omega
    have hlast : (before ++ (sources done ++ run) ++ source).byteLength ≤
        (before ++ sources done ++ (run ++ source ++ more)).byteLength := by
      simp only [byteLength_append]
      omega
    exact ⟨_, _, hfirst, hlast, h.unitsIn_visibleUnits htext hfirst hlt hlast⟩
  · rw [if_neg hc]
    obtain ⟨done, rest, htext, hdone⟩ := exists_textPieces_alone hatoms hlayout hc
    rw [← hdone] at hlt ⊢
    exact h.unitsIn_visibleUnits htext (Nat.le_refl _) hlt (Nat.le_refl _)

end TextNode

/-! ### What a number sign shows -/

/-- A text with an ampersand does not lay out the source. -/
theorem isLayout_ampersand (front back : Text) : isLayout (front ++ '&' :: back) = false := by
  rw [isLayout, List.all_append, List.all_cons]
  have hampersand : isMarkupBlank '&' = false := by decide
  rw [hampersand, Bool.false_and, Bool.and_false, Bool.and_false]

variable {text spelling read tail : Text}

theorem atoms_reference (front : Text)
    (hread : Reference.read? ('#' :: text) = some ⟨[c], spelling.length + 2⟩)
    (hspelling : spelling ++ [';'] <+: text) : ∃ rest, atoms (front ++ '&' :: '#' :: text) =
      atoms front ++ ⟨'&' :: '#' :: (spelling ++ [';']), [c]⟩ :: rest := by
  obtain ⟨after, rfl⟩ := hspelling
  have htake : (spelling ++ [';'] ++ after).take (spelling.length + 1) = spelling ++ [';'] :=
    List.take_left' (by simp)
  refine ⟨atoms (('#' :: (spelling ++ [';'] ++ after)).drop (spelling.length + 2)), ?_⟩
  rw [atoms_append_ampersand, atoms.eq_2 '&', if_pos rfl, hread]
  dsimp only
  rw [List.take_succ_cons, htake]

theorem atoms_literal (front : Text) (hread : Reference.read? ('#' :: text) = none)
    (hsplit : '&' :: '#' :: text = read ++ c :: tail) (hplain : '&' ∉ (read ++ [c]).tail) :
    atoms (front ++ '&' :: '#' :: text) =
      (atoms front ++ letters read) ++ ⟨[c], [c]⟩ :: atoms tail := by
  obtain ⟨run, hrun⟩ : ∃ run, read ++ [c] = '&' :: run := by
    cases read with
    | nil => exact ⟨[], by rw [(List.cons.inj hsplit).1]; rfl⟩
    | cons d read => exact ⟨read ++ [c], by rw [(List.cons.inj hsplit).1]; rfl⟩
  have htext : '#' :: text = run ++ tail := by
    rw [List.append_cons, hrun] at hsplit
    exact (List.cons.inj hsplit).2
  have hletters : letters ('&' :: run) = letters read ++ [⟨[c], [c]⟩] := by
    rw [← hrun]
    exact List.map_append
  rw [hrun, List.tail_cons] at hplain
  rw [atoms_append_ampersand, atoms.eq_2 '&', if_pos rfl, hread]
  dsimp only
  rw [htext, atoms_plain hplain, List.append_assoc, List.append_cons (letters read), ← hletters]
  rfl

/-- **Numeric references.**  Behind an ampersand and a number sign, where no plus sign stands for the
first digit, a reference is read exactly if digits give a character and a semicolon comes among the first
ten characters.  In a text node it shows this character.  Where no reference is read, each character up
to the next ampersand shows itself. -/
theorem numericReference_exact (h : ¬ Reference.Signed text) :
    (∀ reference, Reference.read? ('#' :: text) = some reference ↔
      ∃ spelling c, Reference.Writes text spelling c ∧ reference = ⟨[c], spelling.length + 2⟩) ∧
    ∀ mode markup before front after,
      TextNode mode markup before (front ++ '&' :: '#' :: text) after →
      (∀ spelling c, Reference.Writes text spelling c →
        ShowsAt mode markup (before ++ front) ('&' :: '#' :: (spelling ++ [';'])) c) ∧
      ((¬ ∃ spelling c, Reference.Writes text spelling c) → ∀ read c tail,
        '&' :: '#' :: text = read ++ c :: tail → '&' ∉ (read ++ [c]).tail →
          ShowsAt mode markup (before ++ front ++ read) [c] c) := by
  have hread (reference : Reference) : Reference.read? ('#' :: text) = some reference ↔
      ∃ spelling c, Reference.Writes text spelling c ∧ reference = ⟨[c], spelling.length + 2⟩ :=
    Reference.numeric?_eq_some h
  refine ⟨hread, fun mode markup before front after hnode => ⟨?_, ?_⟩⟩
  · intro spelling c hwrites
    obtain ⟨rest, hatoms⟩ := atoms_reference front
      ((hread _).mpr ⟨spelling, c, hwrites, rfl⟩) hwrites.front
    have hshows := hnode.showsAt hatoms (isLayout_ampersand _ _)
    rwa [sources_atoms] at hshows
  · intro hnone read c tail hsplit hplain
    have hliteral : Reference.read? ('#' :: text) = none := by
      by_contra hsome
      obtain ⟨reference, hreference⟩ := Option.ne_none_iff_exists'.mp hsome
      obtain ⟨spelling, c, hwrites, -⟩ := (hread reference).mp hreference
      exact hnone ⟨spelling, c, hwrites⟩
    have hshows := hnode.showsAt (atoms_literal front hliteral hsplit hplain) (isLayout_ampersand _ _)
    rwa [sources_append, sources_atoms, sources_letters, ← List.append_assoc] at hshows

theorem numericReference_exact_dash :
    Reference.read? "#x2014;b".toList = some ⟨['—'], 7⟩ ∧
    ShowsAt .collapse "<p>a&#x2014;b</p>".toList "<p>a".toList "&#x2014;".toList '—' ∧
    ShowsAt .collapse "&#xZZ;".toList "&#x".toList ['Z'] 'Z' := by
  have hdash : ¬ Reference.Signed "x2014;b".toList := by decide
  have hwrites : Reference.Writes "x2014;b".toList "x2014".toList '—' := {
    front := by decide
    spells := .hexadecimal (.inl rfl) ((digitsValue?_eq_some (by decide)).mp (by decide))
    close := by decide }
  have hnode : TextNode .collapse "<p>a&#x2014;b</p>".toList "<p>".toList
      ("a".toList ++ '&' :: '#' :: "x2014;b".toList) "</p>".toList := {
    split := rfl
    reads := .step (.refl _)
    ends := endsAtTag_textRun "a&#x2014;b</p>".toList }
  have hletters : ¬ Reference.Signed "xZZ;".toList := by decide
  have hnone : ¬ ∃ spelling c, Reference.Writes "xZZ;".toList spelling c := by
    rintro ⟨spelling, c, hwrites⟩
    have hread := ((numericReference_exact hletters).1 _).mpr ⟨spelling, c, hwrites, rfl⟩
    have hliteral : Reference.read? ('#' :: "xZZ;".toList) = none := by decide
    rw [hliteral] at hread
    cases hread
  have hplain : TextNode .collapse "&#xZZ;".toList [] ([] ++ '&' :: '#' :: "xZZ;".toList) [] := {
    split := rfl
    reads := .refl _
    ends := endsAtTag_textRun "&#xZZ;".toList }
  refine ⟨((numericReference_exact hdash).1 _).mpr ⟨_, _, hwrites, rfl⟩,
    ((numericReference_exact hdash).2 _ _ _ _ _ hnode).1 _ _ hwrites, ?_⟩
  exact ((numericReference_exact hletters).2 _ _ _ _ _ hplain).2 hnone "&#x".toList 'Z' "Z;".toList
    rfl (by decide)

/-- The semicolon may come too late. -/
theorem not_numericReference_exact : ¬ ∀ text reference,
    Reference.read? ('#' :: text) = some reference ↔ ∃ spelling c,
      (spelling ++ [';'] <+: text ∧ Reference.Spells spelling c.toNat) ∧
        reference = ⟨[c], spelling.length + 2⟩ := by
  intro h
  have hspells : Reference.Spells "0000000065".toList ('A').toNat :=
    .decimal ((digitsValue?_eq_some (by decide)).mp (by decide))
  have hread := (h "0000000065;".toList ⟨['A'], 12⟩).mpr
    ⟨"0000000065".toList, 'A', ⟨by decide, hspells⟩, rfl⟩
  exact absurd hread (by decide)

end Marginalia.Markup
