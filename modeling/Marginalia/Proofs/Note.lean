import Marginalia.Note
import Marginalia.Proofs.Sentinel
import Marginalia.Proofs.Style

/-! # Notes are well formed

A scan over groups passes over a balanced text (`Balanced`).  Escaped text is balanced whatever it
is (`balanced_escape`), and so is the body of a note (`Note.balanced_body`).  So both arguments of a
note end where they should, and the pass reads the note as a whole (`Note.isNote_toText`).
-/
namespace Marginalia

open Text Latex Relocation

namespace Latex

theorem balanced_escapeChar (c : Char) : Balanced (escapeChar c) := by
  have hglyph {name : String} (hne : name ≠ "") (hletters : ∀ c ∈ name.toList, c.isAlpha = true) :
      Balanced ('\\' :: (name.toList ++ ['\x7b', '\x7d'])) :=
    balanced_nil.group.command hne hletters (by decide)
  unfold escapeChar
  by_cases hescape : (c == '\\') = true
  · rw [if_pos hescape]
    exact @hglyph "textbackslash" (by decide) (by decide)
  rw [if_neg hescape]
  split
  · next hspecial =>
    refine balanced_symbol ?_
    simp only [Bool.or_eq_true, beq_iff_eq] at hspecial
    rcases hspecial with (((((rfl | rfl) | rfl) | rfl) | rfl) | rfl) | rfl <;> decide
  · next hspecial =>
    split
    · exact @hglyph "textasciicircum" (by decide) (by decide)
    split
    · exact @hglyph "textasciitilde" (by decide) (by decide)
    split
    · exact balanced_nil
    · refine balanced_of_inert (List.forall_mem_cons.mpr ⟨?_, by simp⟩)
      refine ⟨?_, ?_, ?_, ?_⟩ <;> rintro rfl
      · exact hescape rfl
      · exact hspecial rfl
      · exact hspecial rfl
      · exact hspecial rfl

/-- **Escaped text is balanced**, whatever the text is. -/
theorem balanced_escape (text : Text) : Balanced (escape text) := by
  induction text with
  | nil => exact balanced_nil
  | cons c text ih => exact (balanced_escapeChar c).append ih

end Latex

/-! ### Times -/

theorem inert_of_isDigit {c : Char} (h : c.isDigit = true) : Inert c := by
  refine ⟨?_, ?_, ?_, ?_⟩ <;>
    (rintro rfl; exact absurd h (by decide))

theorem inert_of_mem_padded {width n : Nat} : ∀ c ∈ padded width n, Inert c := by
  intro c hc
  rcases List.mem_append.mp hc with hc | hc
  · obtain rfl := List.eq_of_mem_replicate hc
    exact inert_of_isDigit (by decide)
  · exact inert_of_isDigit (Sentinel.isDigit_of_mem_decimal hc)

theorem Moment.inert_of_mem_shortText (moment : Moment) : ∀ c ∈ moment.shortText, Inert c := by
  have hmonth : ∀ month, ∀ c ∈ monthName month, Inert c := by
    intro month
    unfold monthName
    split <;> decide
  have hyear : ∀ year, ∀ c ∈ yearText year, Inert c := by
    intro year
    unfold yearText
    split
    · exact inert_of_mem_padded
    · refine List.forall_mem_cons.mpr ⟨?_, inert_of_mem_padded⟩
      split <;> decide
  intro c hc
  unfold shortText at hc
  simp only [List.mem_append, List.mem_cons] at hc
  rcases hc with ((((hc | rfl | hc) | rfl | hc) | rfl | hc) | rfl | hc)
  · exact inert_of_mem_padded c hc
  · decide
  · exact hmonth _ c hc
  · decide
  · exact hyear _ c hc
  · decide
  · exact inert_of_mem_padded c hc
  · decide
  · exact inert_of_mem_padded c hc

/-! ### Notes -/

namespace Note

theorem balanced_commentBody (text : Text) : Balanced (commentBody text) := by
  have hbreak : Balanced "\\par ".toList :=
    @Balanced.command "par" ' ' [] (balanced_of_inert (by decide)) (by decide) (by decide) (by decide)
  refine balanced_flatten fun piece hpiece => ?_
  rcases eq_or_mem_of_mem_intersperse hpiece with rfl | hpiece
  · exact hbreak
  · obtain ⟨paragraph, -, rfl⟩ := List.mem_map.mp hpiece
    exact balanced_escape _

theorem balanced_commentText (comment : Comment) : Balanced (commentText comment) := by
  have hopen : "\\par\x7b\\scriptsize\\textbf\x7b".toList = '\\' :: ("par".toList ++
      '\x7b' :: '\\' :: ("scriptsize".toList ++ '\\' :: ("textbf".toList ++ ['\x7b']))) := rfl
  have hclose : "\x7d, ".toList = '\x7d' :: ", ".toList := rfl
  have hend : ":\x7d ".toList = [':'] ++ '\x7d' :: [' '] := rfl
  intro depth rest hdepth
  unfold commentText
  rw [hopen, hclose, hend]
  simp only [List.append_assoc, List.cons_append, List.nil_append]
  rw [closeGroup_word (by decide) (by decide) (stops_cons.mpr (by decide)), closeGroup,
    closeGroup_word (by decide) (by decide) (stops_cons.mpr (by decide)),
    closeGroup_word (by decide) (by decide) (stops_cons.mpr (by decide)), closeGroup,
    balanced_escape _ _ _ (Nat.le_add_left 1 _), closeGroup_right (Nat.le_add_left 1 _),
    closeGroup_append (by decide), closeGroup_append comment.writtenAt.inert_of_mem_shortText,
    closeGroup_cons (show Inert ':' by decide), closeGroup_right hdepth,
    closeGroup_cons (show Inert ' ' by decide), balanced_commentBody _ _ _ hdepth]

theorem balanced_paragraphText (paragraph : Option String) : Balanced (paragraphText paragraph) := by
  unfold paragraphText
  split
  · exact balanced_nil
  · exact balanced_nil
  · have hblank : Balanced [' '] := balanced_of_inert (by decide)
    exact hblank.append (balanced_escape _)

theorem balanced_commentsText (comments : List Comment) : Balanced (commentsText comments) := by
  unfold commentsText
  cases comments with
  | nil => exact balanced_nil
  | cons comment comments =>
    have hrule : "\\par\\hrulefill".toList =
        '\\' :: ("par".toList ++ '\\' :: "hrulefill".toList) := rfl
    have hcomments : Balanced ((comment :: comments).flatMap commentText) := by
      refine balanced_flatten fun text htext => ?_
      obtain ⟨comment, -, rfl⟩ := List.mem_map.mp htext
      exact balanced_commentText comment
    intro depth rest hdepth
    rw [if_neg (by simp), hrule]
    simp only [List.append_assoc, List.cons_append]
    -- The first comment begins with a command, so the name of the rule ends there.
    have hstops : Stops Char.isAlpha ((comment :: comments).flatMap commentText ++ rest) :=
      stops_cons.mpr (by decide)
    rw [closeGroup_word (by decide) (by decide) (stops_cons.mpr (by decide)),
      closeGroup_word (by decide) (by decide) hstops, hcomments _ _ hdepth]

/-- The body of a note is balanced. -/
theorem balanced_body (highlight : Highlight) (style : TagStyle) : Balanced (body highlight style) := by
  have hname : "\\textbf\x7b".toList = '\\' :: ("textbf".toList ++ ['\x7b']) := rfl
  have hsize : "\\par\x7b\\scriptsize ".toList =
      '\\' :: ("par".toList ++ '\x7b' :: '\\' :: ("scriptsize".toList ++ [' '])) := rfl
  intro depth rest hdepth
  unfold body
  rw [hname, hsize]
  simp only [List.append_assoc, List.cons_append, List.nil_append]
  rw [closeGroup_word (by decide) (by decide) (stops_cons.mpr (by decide)), closeGroup,
    balanced_escape _ _ _ (Nat.le_add_left 1 _), closeGroup_right hdepth,
    balanced_paragraphText _ _ _ hdepth,
    closeGroup_word (by decide) (by decide) (stops_cons.mpr (by decide)), closeGroup,
    closeGroup_word (by decide) (by decide) (stops_cons.mpr (by decide)),
    closeGroup_cons (show Inert ' ' by decide), balanced_escape _ _ _ (Nat.le_add_left 1 _),
    closeGroup_append (by decide), closeGroup_append highlight.createdAt.inert_of_mem_shortText,
    closeGroup_right hdepth, balanced_commentsText _ _ _ hdepth]

/-- The two arguments of a note. -/
def arguments (highlight : Highlight) (style : TagStyle) : Text :=
  '\x7b' :: (style.key ++ '\x7d' :: '\x7b' :: (body highlight style ++ ['\x7d']))

theorem toText_eq (highlight : Highlight) (style : TagStyle) :
    toText highlight style = "\\annot".toList ++ arguments highlight style := by
  have hopen : "\\annot\x7b".toList = "\\annot".toList ++ ['\x7b'] := rfl
  have hmiddle : "\x7d\x7b".toList = ['\x7d', '\x7b'] := rfl
  unfold toText arguments
  rw [hopen, hmiddle]
  simp only [List.append_assoc, List.cons_append, List.nil_append]

theorem readGroup?_arguments {style : TagStyle} (hkey : ∀ c ∈ style.key, isKeyChar c = true)
    (highlight : Highlight) (rest : Text) :
    readGroup? (arguments highlight style ++ rest) =
      some (style.key, '\x7b' :: (body highlight style ++ '\x7d' :: rest)) := by
  unfold arguments
  simp only [List.append_assoc, List.cons_append, List.nil_append]
  exact readGroup?_append (fun c hc => (ordinary_of_isKeyChar (hkey c hc)).toInert) _

theorem readGroup?_body (highlight : Highlight) (style : TagStyle) (rest : Text) :
    readGroup? ('\x7b' :: (body highlight style ++ '\x7d' :: rest)) =
      some (body highlight style, rest) := by
  have hclose : closeGroup 1 (body highlight style ++ '\x7d' :: rest) = .closed rest :=
    (balanced_body highlight style).closeGroup rest
  have hpiece : body highlight style ++ '\x7d' :: rest = (body highlight style ++ ['\x7d']) ++ rest := by
    rw [List.append_assoc, List.singleton_append]
  rw [readGroup?, hclose]
  dsimp only
  rw [hpiece, upTo_append_right, List.dropLast_concat]

theorem noteEnd?_arguments {style : TagStyle} (hkey : ∀ c ∈ style.key, isKeyChar c = true)
    (highlight : Highlight) (rest : Text) :
    noteEnd? (arguments highlight style ++ rest) = some rest := by
  -- No white space stands in front of either argument.
  have hskip (text : Text) : skipBlanks ('\x7b' :: text) = '\x7b' :: text := rfl
  have hfirst : skipBlanks (arguments highlight style ++ rest) = arguments highlight style ++ rest :=
    hskip _
  rw [noteEnd?, hfirst, readGroup?_arguments hkey]
  dsimp only
  rw [hskip, readGroup?_body]
  rfl

/-- A scan inside a bracketed argument passes over a note. -/
theorem sealed_toText {style : TagStyle} (hkey : ∀ c ∈ style.key, isKeyChar c = true)
    (highlight : Highlight) : Sealed (toText highlight style) := by
  have hkey : Balanced style.key :=
    balanced_of_inert fun c hc => (ordinary_of_isKeyChar (hkey c hc)).toInert
  have harguments : Sealed (arguments highlight style) := by
    have hboth := hkey.sealed.append (balanced_body highlight style).sealed
    rwa [List.cons_append, List.append_assoc, List.singleton_append] at hboth
  rw [toText_eq]
  exact @Sealed.command "annot" _ _ harguments (by decide) (by decide) (by decide)

/-- **A note is read as a whole.** -/
theorem isNote_toText {style : TagStyle} (hkey : ∀ c ∈ style.key, isKeyChar c = true)
    (highlight : Highlight) : IsNote (toText highlight style) := by
  intro rest
  rw [toText_eq]
  exact (Lexes.note (noteEnd?_arguments hkey highlight)).begins

/-- **User text cannot leave its note.**  Whatever stands around the note of a highlight, its end is
found where it was written; its arguments are the key of its style and its body; and the pass reads
all of it in one step, which keeps it as one piece. -/
theorem note_sealed {tags : TagMap} {settings : StyleSettings} {used : List String} {tag : String}
    {style : TagStyle} (hstyle : (tag, style) ∈ (StyleTable.ofTags tags settings used).styles)
    (highlight : Highlight) (before after : Text) :
    noteEnd? ((before ++ toText highlight style ++ after).drop
      (before ++ "\\annot".toList).length) = some after ∧
    toText highlight style = "\\annot".toList ++ arguments highlight style ∧
    (∃ rest, readGroup? (arguments highlight style ++ after) = some (style.key, rest) ∧
      readGroup? rest = some (body highlight style, after)) ∧
    ∀ (contexts : Contexts) (state : State), ∃ next,
      step contexts state '\\' ("annot".toList ++ arguments highlight style ++ after) =
        .next next after ∧
      next.offset = state.offset + (toText highlight style).byteLength ∧
      (next.stash = (state.settle '\\').stash ++ [toText highlight style] ∧
          next.written = (state.settle '\\').written ∨
        next.stash = (state.settle '\\').stash ∧
          next.written = toText highlight style :: (state.settle '\\').written) := by
  have hkey := StyleTable.isKeyChar_of_mem hstyle
  refine ⟨?_, toText_eq highlight style, ?_, ?_⟩
  · have hsplit : before ++ toText highlight style ++ after =
        (before ++ "\\annot".toList) ++ (arguments highlight style ++ after) := by
      rw [toText_eq]
      simp only [List.append_assoc]
    rw [hsplit, List.drop_left]
    exact noteEnd?_arguments hkey highlight after
  · exact ⟨_, readGroup?_arguments hkey highlight after, readGroup?_body highlight style after⟩
  · intro contexts state
    obtain ⟨c, text, htext, -, hstep⟩ :=
      (isNote_toText hkey highlight after).step_eq contexts state
    have hcons : toText highlight style ++ after =
        '\\' :: ("annot".toList ++ arguments highlight style ++ after) := by
      rw [toText_eq]
      rfl
    obtain ⟨rfl, rfl⟩ := List.cons.inj (hcons.symm.trans htext)
    have hoffset : (state.settle '\\').offset = state.offset := by
      unfold State.settle
      split <;> rfl
    rw [hstep, State.act]
    -- Inside a restricted context the note is kept for later, elsewhere it is written.
    by_cases hhold : (state.settle '\\').hold.isSome = true
    · rw [if_pos hhold]
      exact ⟨_, rfl, congrArg (· + _) hoffset, .inl ⟨rfl, rfl⟩⟩
    · obtain ⟨warnings, hwarn⟩ := (state.settle '\\').exists_warn contexts
      rw [if_neg hhold, hwarn]
      exact ⟨_, rfl, congrArg (· + _) hoffset, .inr ⟨rfl, rfl⟩⟩

/-- An author, a paragraph and a reply that try to end the note they stand in, in front of a text that
tries the same. -/
theorem note_sealed_hostile :
    let highlight : Highlight := ⟨"h", 0, 1, "idea", "\x7d\x7d\\annot\x7b%", ⟨0, 0, 0⟩,
      [⟨"\\", "%\n\n\x7d\\", ⟨0, 0, 0⟩⟩], some "\x7b\\"⟩
    let style : TagStyle := ⟨"idea".toList, "Idea".toList, ⟨0x77, 0x77, 0x77⟩⟩
    (StyleTable.ofTags [] .standard ["idea"]).styles = [("idea", style)] ∧
    noteEnd? (("\\emph\x7b".toList ++ toText highlight style ++ "\x7bx\x7d]%\x7d".toList).drop 12) =
      some "\x7bx\x7d]%\x7d".toList := by
  intro highlight style
  have hstyles : (StyleTable.ofTags [] .standard ["idea"]).styles = [("idea", style)] := by
    decide +kernel
  have hmem : ("idea", style) ∈ (StyleTable.ofTags [] .standard ["idea"]).styles := by
    rw [hstyles]
    exact List.mem_singleton_self _
  obtain ⟨hend, -⟩ := note_sealed hmem highlight "\\emph\x7b".toList "\x7bx\x7d]%\x7d".toList
  exact ⟨hstyles, hend⟩

end Note

end Marginalia
