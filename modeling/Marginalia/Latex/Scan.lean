import Marginalia.Text.Blank

/-! # Scanning LaTeX

Readers of control sequences, comments, groups, bracketed arguments and verbatim text.  Each reads
from the front of a text and hands back what is left; the lemmas named `_suffix` say that this is
an end of the text it was given, so that no reader runs past the text or starts over.
-/
namespace Marginalia.Latex

open Text

/-- A control sequence after its backslash: a word of letters, a single other character, or
nothing when the text ends at the backslash. -/
inductive Control where
  | word (name : String)
  | symbol (c : Char)
  | bare
  deriving DecidableEq, Repr

/-- Reads a control sequence after its backslash. -/
def readControl : Text → Control × Text
  | [] => (.bare, [])
  | c :: text =>
    if c.isAlpha then
      (.word (String.ofList (c :: text.takeWhile Char.isAlpha)), text.dropWhile Char.isAlpha)
    else (.symbol c, text)

theorem readControl_suffix (text : Text) : (readControl text).2 <:+ text := by
  cases text with
  | nil => exact List.suffix_refl _
  | cons c text =>
    simp only [readControl]
    split
    · exact (List.dropWhile_suffix _).trans (List.suffix_cons _ _)
    · exact List.suffix_cons _ _

/-- What follows a comment, which ends with its line. -/
def dropComment : Text → Text
  | [] => []
  | c :: text => if c = '\n' then text else dropComment text

theorem dropComment_suffix (text : Text) : dropComment text <:+ text := by
  induction text with
  | nil => exact List.suffix_refl _
  | cons c text ih =>
    simp only [dropComment]
    split
    · exact List.suffix_cons _ _
    · exact ih.trans (List.suffix_cons _ _)

/-- What follows the white space before an argument: spaces, tabs and carriage returns, and at
most one line feed if `newline` allows one. -/
def skipBlanksUpTo (newline : Bool) : Text → Text
  | [] => []
  | c :: text =>
    if c = ' ' ∨ c = '\t' ∨ c = '\r' then skipBlanksUpTo newline text
    else if c = '\n' ∧ newline then skipBlanksUpTo false text
    else c :: text

/-- What follows the white space before an argument. -/
def skipBlanks (text : Text) : Text :=
  skipBlanksUpTo true text

theorem skipBlanksUpTo_suffix (newline : Bool) (text : Text) :
    skipBlanksUpTo newline text <:+ text := by
  induction text generalizing newline with
  | nil => exact List.suffix_refl _
  | cons c text ih =>
    simp only [skipBlanksUpTo]
    split
    · exact (ih _).trans (List.suffix_cons _ _)
    · split
      · exact (ih _).trans (List.suffix_cons _ _)
      · exact List.suffix_refl _

theorem skipBlanks_suffix (text : Text) : skipBlanks text <:+ text :=
  skipBlanksUpTo_suffix true text

/-- How the scan of a group ends: with what follows its closing brace, or with the number of
groups still open at the end of the text. -/
inductive Closing where
  | closed (rest : Text)
  | unclosed (depth : Nat)
  deriving DecidableEq, Repr

/-- Scans a group inside which `depth` groups are open.  Control sequences and comments are
passed over. -/
def closeGroup (depth : Nat) (text : Text) : Closing :=
  match text with
  | [] => .unclosed depth
  | '\\' :: text => closeGroup depth (readControl text).2
  | '%' :: text => closeGroup depth (dropComment text)
  | '{' :: text => closeGroup (depth + 1) text
  | '}' :: text => if depth ≤ 1 then .closed text else closeGroup (depth - 1) text
  | _ :: text => closeGroup depth text
termination_by text.length
decreasing_by
  · have := (readControl_suffix text).length_le; simp; omega
  · have := (dropComment_suffix text).length_le; simp; omega
  · simp
  · simp
  · simp

theorem closeGroup_suffix {depth : Nat} {text rest : Text}
    (h : closeGroup depth text = .closed rest) : rest <:+ text := by
  fun_induction closeGroup depth text with
  | case1 => simp at h
  | case2 depth text ih =>
    exact ((ih h).trans (readControl_suffix text)).trans (List.suffix_cons _ _)
  | case3 depth text ih =>
    exact ((ih h).trans (dropComment_suffix text)).trans (List.suffix_cons _ _)
  | case4 depth text ih => exact (ih h).trans (List.suffix_cons _ _)
  | case5 depth text hd =>
    obtain rfl : text = rest := by simpa using h
    exact List.suffix_cons _ _
  | case6 depth text hd ih => exact (ih h).trans (List.suffix_cons _ _)
  | case7 depth c text _ _ _ _ ih => exact (ih h).trans (List.suffix_cons _ _)

/-- Reads a group at the front of a text: its content, and what follows its closing brace. -/
def readGroup? : Text → Option (Text × Text)
  | '{' :: text =>
    match closeGroup 1 text with
    | .closed rest => some ((upTo text rest).dropLast, rest)
    | .unclosed _ => none
  | _ => none

theorem readGroup?_length {text body rest : Text} (h : readGroup? text = some (body, rest)) :
    rest.length < text.length := by
  unfold readGroup? at h
  split at h
  · next text =>
    split at h
    · next r hr =>
      obtain ⟨_, rfl⟩ : _ ∧ r = rest := by simpa using h
      have := (closeGroup_suffix hr).length_le
      simp
      omega
    · simp at h
  · simp at h

/-- How the scan of a bracketed argument ends: with what follows its closing bracket, at the end
of the text, or at a brace that closes a group around it. -/
inductive BracketScan where
  | closed (rest : Text)
  | unclosed
  | broken
  deriving DecidableEq, Repr

/-- Scans a bracketed argument after its opening bracket.  Groups inside it must close before
it does. -/
def scanBracket (text : Text) : BracketScan :=
  match text with
  | [] => .unclosed
  | '\\' :: text => scanBracket (readControl text).2
  | '%' :: text => scanBracket (dropComment text)
  | '{' :: text =>
    match _h : closeGroup 1 text with
    | .closed rest => scanBracket rest
    | .unclosed _ => .unclosed
  | '}' :: _ => .broken
  | ']' :: text => .closed text
  | _ :: text => scanBracket text
termination_by text.length
decreasing_by
  · have := (readControl_suffix text).length_le; simp; omega
  · have := (dropComment_suffix text).length_le; simp; omega
  · have := (closeGroup_suffix _h).length_le; simp; omega
  · simp

theorem scanBracket_suffix {text rest : Text} (h : scanBracket text = .closed rest) :
    rest <:+ text := by
  fun_induction scanBracket text with
  | case1 => simp at h
  | case2 text ih => exact ((ih h).trans (readControl_suffix text)).trans (List.suffix_cons _ _)
  | case3 text ih => exact ((ih h).trans (dropComment_suffix text)).trans (List.suffix_cons _ _)
  | case4 text r hr ih => exact ((ih h).trans (closeGroup_suffix hr)).trans (List.suffix_cons _ _)
  | case5 => simp at h
  | case6 => simp at h
  | case7 text =>
    obtain rfl : text = rest := by simpa using h
    exact List.suffix_cons _ _
  | case8 c text _ _ _ _ _ ih => exact (ih h).trans (List.suffix_cons _ _)

/-- What follows a bracketed argument at the front of a text, if it closes. -/
def readBracket? : Text → Option Text
  | '[' :: text =>
    match scanBracket text with
    | .closed rest => some rest
    | _ => none
  | _ => none

theorem readBracket?_suffix {text rest : Text} (h : readBracket? text = some rest) :
    rest <:+ text := by
  unfold readBracket? at h
  split at h
  · next text =>
    split at h
    · next r hr =>
      obtain rfl : r = rest := by simpa using h
      exact (scanBracket_suffix hr).trans (List.suffix_cons _ _)
    · simp at h
  · simp at h

theorem readBracket?_length {text rest : Text} (h : readBracket? text = some rest) :
    rest.length < text.length := by
  unfold readBracket? at h
  split at h
  · next text =>
    split at h
    · next r hr =>
      obtain rfl : r = rest := by simpa using h
      have := (scanBracket_suffix hr).length_le
      simp
      omega
    · simp at h
  · simp at h

/-- The environments whose body is passed over without being read. -/
inductive Verbatim where
  | verbatim
  | fancy
  | listing
  deriving DecidableEq, Repr

namespace Verbatim

/-- All verbatim environments. -/
def all : List Verbatim :=
  [.verbatim, .fancy, .listing]

/-- The name of the environment. -/
def name : Verbatim → Text
  | .verbatim => "verbatim".toList
  | .fancy => "Verbatim".toList
  | .listing => "lstlisting".toList

/-- The text that begins the environment. -/
def opening (env : Verbatim) : Text :=
  "\\begin\x7b".toList ++ env.name ++ ['}']

/-- The text that ends the environment. -/
def closing (env : Verbatim) : Text :=
  "\\end\x7b".toList ++ env.name ++ ['}']

/-- The verbatim environment that begins at the front of a text, and what follows its
beginning. -/
def begins? (text : Text) : Option (Verbatim × Text) :=
  all.findSome? fun env => (env.opening.isPrefixOf? text).map (env, ·)

/-- What follows the end of the environment, if it ends in this text. -/
def end? (env : Verbatim) (text : Text) : Option Text :=
  (split? env.closing text).map Prod.snd

theorem eq_append_of_begins? {text rest : Text} {env : Verbatim}
    (h : begins? text = some (env, rest)) : text = env.opening ++ rest := by
  obtain ⟨e, _, he⟩ := List.exists_of_findSome?_eq_some h
  obtain ⟨r, hr, heq⟩ := Option.map_eq_some_iff.mp he
  obtain ⟨rfl, rfl⟩ := Prod.mk.inj heq
  exact eq_append_of_isPrefixOf? hr

theorem end?_suffix {env : Verbatim} {text rest : Text} (h : env.end? text = some rest) :
    rest <:+ text := by
  obtain ⟨⟨front, r⟩, hs, rfl⟩ := Option.map_eq_some_iff.mp h
  exact ⟨front ++ env.closing, (split?_eq_some hs).symm⟩

end Verbatim

/-- What follows inline verbatim text after its control word: it runs from a character of choice
to the next such character, or to the end of the line. -/
def dropVerb (text : Text) : Text :=
  let delimited := match text with
    | '*' :: rest => rest
    | _ => text
  match delimited with
  | [] => []
  | delimiter :: body => (body.dropWhile fun c => c != delimiter && c != '\n').drop 1

theorem dropVerb_suffix (text : Text) : dropVerb text <:+ text := by
  have key (t : Text) : (match t with
      | [] => []
      | delimiter :: body =>
        (body.dropWhile fun c => c != delimiter && c != '\n').drop 1 : Text) <:+ t := by
    cases t with
    | nil => exact List.suffix_refl _
    | cons d body =>
      exact ((List.drop_suffix 1 _).trans (List.dropWhile_suffix _)).trans (List.suffix_cons _ _)
  unfold dropVerb
  split
  · exact (key _).trans (List.suffix_cons _ _)
  · exact key _

end Marginalia.Latex
