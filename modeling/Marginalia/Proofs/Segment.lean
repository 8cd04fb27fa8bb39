import Marginalia.Segment
import Marginalia.Proofs.Text

/-! # Joining segments and trimming them

What is put in front of segments is left out, joined to the first of them or kept apart
(`cons_cases`).  So no two neighbours of a merged list are of one kind (`alternating_merge`).

The white space at the edges of running text is set apart and then either becomes markup or is joined
again, so a middle of the text is left that has no line feed in the white space at its edges
(`exists_trimmed`).  It is never joined to the text of another segment, so what holds of this middle
holds of the running text at the end (`onText_trimmed`).
-/
namespace Marginalia.Segment

open Text

variable {first segment : Segment} {segments : List Segment} {kind : Kind} {front : Text}

/-! ### Joining -/

/-- The first segment is not of the kind. -/
def Apart (kind : Kind) (segments : List Segment) : Prop :=
  ∀ next ∈ segments.head?, next.kind ≠ kind

/-- A segment in front of others is left out as it is empty, joined to the first of them, or kept. -/
theorem cons_cases (first : Segment) (segments : List Segment) :
    (first.text = [] ∧ cons first segments = segments) ∨
    (first.text ≠ [] ∧ ∃ next rest, segments = next :: rest ∧ next.kind = first.kind ∧
      cons first segments = ⟨first.kind, first.text ++ next.text⟩ :: rest) ∨
    (first.text ≠ [] ∧ Apart first.kind segments ∧ cons first segments = first :: segments) := by
  unfold cons
  by_cases hempty : first.text.isEmpty = true
  · exact .inl ⟨List.isEmpty_iff.mp hempty, if_pos hempty⟩
  have hne : first.text ≠ [] := fun heq => hempty (List.isEmpty_iff.mpr heq)
  rw [if_neg hempty]
  cases segments with
  | nil => exact .inr (.inr ⟨hne, by simp [Apart], rfl⟩)
  | cons next rest =>
    by_cases hkind : next.kind = first.kind
    · exact .inr (.inl ⟨hne, next, rest, rfl, hkind, if_pos hkind⟩)
    · exact .inr (.inr ⟨hne, by simpa [Apart] using hkind, if_neg hkind⟩)

/-- Two parts of one kind in front of segments are one part. -/
theorem cons_cons (kind : Kind) (front text : Text) (segments : List Segment) :
    cons ⟨kind, front⟩ (cons ⟨kind, text⟩ segments) = cons ⟨kind, front ++ text⟩ segments := by
  unfold cons
  cases front with
  | nil => rfl
  | cons c front =>
    cases text with
    | nil => rw [List.append_nil]; rfl
    | cons d text =>
      cases segments with
      | nil =>
        simp
      | cons next rest =>
        by_cases hkind : next.kind = kind <;> simp [hkind]

theorem text_ne_nil_of_mem_cons (h : segment ∈ cons first segments)
    (hsegments : ∀ s ∈ segments, s.text ≠ []) : segment.text ≠ [] := by
  rcases cons_cases first segments with ⟨-, heq⟩ | ⟨hne, next, rest, rfl, -, heq⟩ | ⟨hne, -, heq⟩ <;>
    rw [heq] at h
  · exact hsegments segment h
  · rcases List.mem_cons.mp h with rfl | h
    · exact List.append_ne_nil_of_left_ne_nil hne _
    · exact hsegments segment (List.mem_cons_of_mem _ h)
  · rcases List.mem_cons.mp h with rfl | h
    · exact hne
    · exact hsegments segment h

theorem text_ne_nil_of_mem_merge (h : segment ∈ merge segments) : segment.text ≠ [] := by
  induction segments generalizing segment with
  | nil => cases h
  | cons first segments ih => exact text_ne_nil_of_mem_cons h fun s hs => ih hs

/-- Neighbours differ in kind. -/
def Alternating : List Segment → Prop
  | [] => True
  | first :: segments => Apart first.kind segments ∧ Alternating segments

theorem alternating_merge (segments : List Segment) : Alternating (merge segments) := by
  induction segments with
  | nil => trivial
  | cons first segments ih =>
    have hmerge : merge (first :: segments) = cons first (merge segments) := rfl
    rw [hmerge]
    rcases cons_cases first (merge segments) with
      ⟨-, heq⟩ | ⟨-, next, rest, hrest, hkind, heq⟩ | ⟨-, hapart, heq⟩
    · rwa [heq]
    · rw [hrest] at ih
      rw [heq]
      exact ⟨hkind ▸ ih.1, ih.2⟩
    · rw [heq]
      exact ⟨hapart, ih⟩

/-- The first segment has the kind of the first part that is not empty. -/
theorem kind_head_foldr {Q : Kind → Prop} {parts : List Segment} (hne : texts parts ≠ [])
    (hQ : ∀ part ∈ parts, Q part.kind) :
    ∀ next ∈ (parts.foldr cons segments).head?, Q next.kind := by
  induction parts with
  | nil => exact absurd rfl hne
  | cons part parts ih =>
    obtain ⟨hpart, hparts⟩ := List.forall_mem_cons.mp hQ
    rw [List.foldr_cons]
    rcases cons_cases part (parts.foldr cons segments) with
      ⟨hnil, heq⟩ | ⟨-, next, rest, -, -, heq⟩ | ⟨-, -, heq⟩ <;> rw [heq]
    · rw [texts_cons, hnil] at hne
      exact ih hne hparts
    · simpa using hpart
    · simpa using hpart

/-! ### Trimming -/

/-- No line feed stands in the white space at the edges of the text. -/
structure Edged (text : Text) : Prop where
  lead : '\n' ∉ leadingBlank text
  trail : '\n' ∉ trailingBlank text

/-- A text in three: what stays, and in front of it and behind it the white space that becomes markup,
which has a line feed in it. -/
structure Trimmed (text front kept back : Text) : Prop where
  append : front ++ (kept ++ back) = text
  front_blank : ∀ c ∈ front, isBlank c = true
  back_blank : ∀ c ∈ back, isBlank c = true
  front_line : front ≠ [] → '\n' ∈ front
  back_line : back ≠ [] → '\n' ∈ back
  edged : Edged kept

theorem edged_of_not_mem {text : Text} (h : '\n' ∉ text) : Edged text := by
  refine ⟨fun hlead => h ?_, fun htrail => h ?_⟩
  · exact (List.takeWhile_prefix isBlank).mem hlead
  · exact List.mem_reverse.mp ((List.takeWhile_prefix isBlank).mem (List.mem_reverse.mp htrail))

/-- White space around a text that has none at its edges. -/
theorem edged_append {lead body trail : Text} (hlead : ∀ c ∈ lead, isBlank c = true)
    (htrail : ∀ c ∈ trail, isBlank c = true) (hfirst : ∀ rest, Stops isBlank (body ++ rest))
    (hlast : ∀ rest, Stops isBlank (body.reverse ++ rest)) (hlead' : '\n' ∉ lead)
    (htrail' : '\n' ∉ trail) : Edged (lead ++ (body ++ trail)) := by
  refine ⟨?_, ?_⟩
  · rwa [leadingBlank, (takeWhile_append_stop hlead (hfirst trail)).1]
  · rw [trailingBlank, List.mem_reverse, List.reverse_append, List.reverse_append, List.append_assoc,
      (takeWhile_append_stop (fun c hc => htrail c (List.mem_reverse.mp hc)) (hlast lead.reverse)).1]
    rwa [List.mem_reverse]

/-- White space at the front of running text becomes markup or stays. -/
theorem cons_lead (lead : Text) (kind : Kind) : ∃ front kept,
    lead = front ++ kept ∧ (front ≠ [] → '\n' ∈ front) ∧ '\n' ∉ kept ∧
      ∀ segments, cons ⟨edgeKind lead kind, lead⟩ segments =
        cons ⟨.markup, front⟩ (cons ⟨kind, kept⟩ segments) := by
  unfold edgeKind
  by_cases hline : lead.contains '\n' = true
  · rw [if_pos hline]
    exact ⟨lead, [], (List.append_nil lead).symm, fun _ => List.contains_iff_mem.mp hline,
      List.not_mem_nil, fun _ => rfl⟩
  · rw [if_neg hline]
    exact ⟨[], lead, rfl, fun h => absurd rfl h, fun h => hline (List.contains_iff_mem.mpr h),
      fun _ => rfl⟩

/-- White space behind running text becomes markup or stays. -/
theorem cons_trail (trail : Text) (kind : Kind) : ∃ kept back,
    trail = kept ++ back ∧ (back ≠ [] → '\n' ∈ back) ∧ '\n' ∉ kept ∧
      ∀ segments, cons ⟨edgeKind trail kind, trail⟩ segments =
        cons ⟨kind, kept⟩ (cons ⟨.markup, back⟩ segments) := by
  unfold edgeKind
  by_cases hline : trail.contains '\n' = true
  · rw [if_pos hline]
    exact ⟨[], trail, rfl, fun _ => List.contains_iff_mem.mp hline, List.not_mem_nil, fun _ => rfl⟩
  · rw [if_neg hline]
    exact ⟨trail, [], (List.append_nil trail).symm, fun h => absurd rfl h,
      fun h => hline (List.contains_iff_mem.mpr h), fun _ => rfl⟩

theorem stops_append_of_ne_nil {p : Char → Bool} {text : Text} (hne : text ≠ [])
    (h : Stops p text) (rest : Text) : Stops p (text ++ rest) := by
  obtain ⟨c, tail, rfl⟩ := List.exists_cons_of_ne_nil hne
  rwa [List.cons_append, stops_cons, ← stops_cons]

theorem stops_reverse_trim (text : Text) : Stops isBlank (trim text).reverse := by
  rw [trim, trimEnd, List.reverse_reverse]
  exact stops_dropWhile _ _

theorem stops_trim (text : Text) : Stops isBlank (trim text) := by
  have hstops := stops_dropWhile isBlank text
  rw [← trimStart, ← trimEnd_append_trailingBlank (trimStart text), ← trim] at hstops
  cases htrim : trim text with
  | nil => exact stops_nil _
  | cons c body =>
    rw [htrim, List.cons_append, stops_cons] at hstops
    exact stops_cons.mpr hstops

/-- Running text is cut in three. -/
theorem exists_trimmed (hkind : segment.kind ≠ .markup) :
    ∃ front kept back, Trimmed segment.text front kept back ∧
      ∀ segments, segment.trimEdges.foldr cons segments =
        cons ⟨.markup, front⟩ (cons ⟨segment.kind, kept⟩ (cons ⟨.markup, back⟩ segments)) := by
  have hlead : ∀ c ∈ leadingBlank segment.text, isBlank c = true :=
    List.all_eq_true.mp List.all_takeWhile
  have htrail : ∀ c ∈ trailingBlank (trimStart segment.text), isBlank c = true := by
    intro c hc
    exact List.all_eq_true.mp List.all_takeWhile c (List.mem_reverse.mp hc)
  have hedges : leadingBlank segment.text ++ trimStart segment.text = segment.text :=
    leadingBlank_append_trimStart segment.text
  have hbody : trim segment.text ++ trailingBlank (trimStart segment.text) = trimStart segment.text :=
    trimEnd_append_trailingBlank (trimStart segment.text)
  rw [Segment.trimEdges, if_neg hkind]
  dsimp only
  by_cases hempty : (trim segment.text).isEmpty = true
  · -- The text is white space, which is one edge.
    rw [List.isEmpty_iff.mp hempty, List.nil_append] at hbody
    have hblank : ∀ c ∈ segment.text, isBlank c = true := by
      rw [← hedges, ← hbody]
      exact List.forall_mem_append.mpr ⟨hlead, htrail⟩
    obtain ⟨front, kept, happend, hline, hkept, hcons⟩ := cons_lead segment.text segment.kind
    rw [happend] at hblank
    rw [if_pos hempty]
    refine ⟨front, kept, [], ⟨?_, ?_, ?_, hline, ?_, edged_of_not_mem hkept⟩, hcons⟩
    · rw [List.append_nil, ← happend]
    · exact (List.forall_mem_append.mp hblank).1
    · exact fun c hc => absurd hc List.not_mem_nil
    · exact fun h => absurd rfl h
  · have hne : trim segment.text ≠ [] := fun h => hempty (List.isEmpty_iff.mpr h)
    have hne' : (trim segment.text).reverse ≠ [] := fun h => hne (List.reverse_eq_nil_iff.mp h)
    obtain ⟨front, keptLead, heqLead, hfront, hkeptLead, hconsLead⟩ :=
      cons_lead (leadingBlank segment.text) segment.kind
    obtain ⟨keptTrail, back, heqTrail, hback, hkeptTrail, hconsTrail⟩ :=
      cons_trail (trailingBlank (trimStart segment.text)) segment.kind
    rw [heqLead] at hlead
    rw [heqTrail] at htrail
    obtain ⟨hfrontBlank, hlead⟩ := List.forall_mem_append.mp hlead
    obtain ⟨htrail, hbackBlank⟩ := List.forall_mem_append.mp htrail
    rw [if_neg hempty]
    refine ⟨front, keptLead ++ (trim segment.text ++ keptTrail), back,
      ⟨?_, hfrontBlank, hbackBlank, hfront, hback, ?_⟩, fun segments => ?_⟩
    · rw [List.append_assoc, List.append_assoc, ← heqTrail, hbody, ← List.append_assoc, ← heqLead,
        hedges]
    · exact edged_append hlead htrail (stops_append_of_ne_nil hne (stops_trim _))
        (stops_append_of_ne_nil hne' (stops_reverse_trim _)) hkeptLead hkeptTrail
    · rw [List.foldr_cons, List.foldr_cons, List.foldr_cons, List.foldr_nil, hconsLead, hconsTrail,
        cons_cons, cons_cons, List.append_assoc]

/-! ### Running text -/

/-- A property of texts that stays when white space at their edges is left out. -/
structure Trimmable (P : Text → Prop) : Prop where
  lead : ∀ {blank text : Text}, (∀ c ∈ blank, isBlank c = true) → P (blank ++ text) → P text
  trail : ∀ {text blank : Text}, (∀ c ∈ blank, isBlank c = true) → P (text ++ blank) → P text

/-- The property holds of all running text among the segments. -/
def OnText (P : Text → Prop) (segments : List Segment) : Prop :=
  ∀ segment ∈ segments, segment.kind ≠ .markup → P segment.text

variable {P : Text → Prop}

/-- The property holds of a part in front if it holds of the part with any text behind it. -/
theorem OnText.join (h : OnText P segments) (hnil : P [])
    (hfirst : first.kind ≠ .markup → ∀ text, text <+: texts segments → P text → P (first.text ++ text)) :
    OnText P (cons first segments) := by
  intro segment hmem hkind
  rcases cons_cases first segments with
    ⟨-, heq⟩ | ⟨-, next, rest, rfl, hsame, heq⟩ | ⟨-, -, heq⟩ <;> rw [heq] at hmem
  · exact h segment hmem hkind
  · rcases List.mem_cons.mp hmem with rfl | hmem
    · exact hfirst hkind next.text (List.prefix_append _ _)
        (h next List.mem_cons_self (hsame ▸ hkind))
    · exact h segment (List.mem_cons_of_mem _ hmem) hkind
  · rcases List.mem_cons.mp hmem with rfl | hmem
    · have halone := hfirst hkind [] List.nil_prefix hnil
      rwa [List.append_nil] at halone
    · exact h segment hmem hkind

theorem OnText.cons_apart (h : OnText P segments) (hapart : Apart first.kind segments)
    (hfirst : first.kind ≠ .markup → P first.text) : OnText P (cons first segments) := by
  intro segment hmem hkind
  rcases cons_cases first segments with
    ⟨-, heq⟩ | ⟨-, next, rest, rfl, hsame, -⟩ | ⟨-, -, heq⟩
  · exact h segment (heq ▸ hmem) hkind
  · exact absurd hsame (hapart next rfl)
  · rw [heq] at hmem
    rcases List.mem_cons.mp hmem with rfl | hmem
    · exact hfirst hkind
    · exact h segment hmem hkind

theorem OnText.cons_markup (h : OnText P segments) (text : Text) :
    OnText P (cons ⟨.markup, text⟩ segments) := by
  intro segment hmem hkind
  rcases cons_cases ⟨.markup, text⟩ segments with
    ⟨-, heq⟩ | ⟨-, next, rest, rfl, -, heq⟩ | ⟨-, -, heq⟩ <;> rw [heq] at hmem
  · exact h segment hmem hkind
  · rcases List.mem_cons.mp hmem with rfl | hmem
    · exact absurd rfl hkind
    · exact h segment (List.mem_cons_of_mem _ hmem) hkind
  · rcases List.mem_cons.mp hmem with rfl | hmem
    · exact absurd rfl hkind
    · exact h segment hmem hkind

theorem apart_cons_markup (hkind : kind ≠ .markup) (hne : front ≠ []) :
    Apart kind (cons ⟨.markup, front⟩ segments) := by
  have htexts : texts [⟨.markup, front⟩] ≠ [] := by simpa using hne
  intro next hnext
  have hhead : next.kind = .markup :=
    kind_head_foldr (Q := (· = .markup)) htexts (by simp) next hnext
  exact hhead ▸ hkind.symm

theorem OnText.cons_kept {kept back : Text} (h : OnText P segments) (hkind : kind ≠ .markup)
    (hapart : Apart kind segments) (hkept : P kept) :
    OnText P (cons ⟨.markup, front⟩ (cons ⟨kind, kept⟩ (cons ⟨.markup, back⟩ segments))) := by
  refine OnText.cons_markup ?_ front
  by_cases hback : back = []
  · rw [hback]
    exact h.cons_apart hapart fun _ => hkept
  · exact (h.cons_markup back).cons_apart (apart_cons_markup hkind hback) fun _ => hkept

theorem OnText.trimEdges (h : OnText P segments)
    (hapart : segment.kind ≠ .markup → Apart segment.kind segments)
    (hkept : segment.kind ≠ .markup →
      ∀ front kept back, Trimmed segment.text front kept back → P kept) :
    OnText P (segment.trimEdges.foldr cons segments) := by
  by_cases hkind : segment.kind = .markup
  · obtain ⟨kind, text⟩ := segment
    obtain rfl : kind = .markup := hkind
    rw [Segment.trimEdges, if_pos rfl]
    exact h.cons_markup text
  · obtain ⟨front, kept, back, htrimmed, heq⟩ := exists_trimmed hkind
    rw [heq]
    exact h.cons_kept hkind (hapart hkind) (hkept hkind front kept back htrimmed)

theorem kind_of_mem_trimEdges {part : Segment} (h : part ∈ segment.trimEdges) :
    part.kind = segment.kind ∨ part.kind = .markup := by
  have hedge (blank : Text) : edgeKind blank segment.kind = segment.kind ∨
      edgeKind blank segment.kind = .markup := by
    unfold edgeKind
    split
    · exact .inr rfl
    · exact .inl rfl
  unfold Segment.trimEdges at h
  split at h
  · exact .inl (List.mem_singleton.mp h ▸ rfl)
  · dsimp only at h
    split at h
    · exact List.mem_singleton.mp h ▸ hedge _
    · simp only [List.mem_cons, List.not_mem_nil, or_false] at h
      rcases h with rfl | rfl | rfl
      · exact hedge _
      · exact .inl rfl
      · exact hedge _

/-- Markup in front of parts is markup in front of their segments. -/
theorem ofParts_cons_markup (text : Text) (parts : List Segment) :
    ofParts (⟨.markup, text⟩ :: parts) = cons ⟨.markup, text⟩ (ofParts parts) := by
  have hmerge : merge (⟨.markup, text⟩ :: parts) = cons ⟨.markup, text⟩ (merge parts) := rfl
  have htrim (text : Text) (segments : List Segment) :
      merge ((⟨.markup, text⟩ :: segments).flatMap Segment.trimEdges) =
        cons ⟨.markup, text⟩ (merge (segments.flatMap Segment.trimEdges)) := rfl
  unfold ofParts
  rw [hmerge]
  rcases cons_cases ⟨.markup, text⟩ (merge parts) with
    ⟨hnil, heq⟩ | ⟨-, next, rest, hrest, hkind, heq⟩ | ⟨-, -, heq⟩ <;> rw [heq]
  · obtain rfl : text = [] := hnil
    rfl
  · obtain ⟨kind, text'⟩ := next
    obtain rfl : kind = .markup := hkind
    rw [hrest, htrim, htrim, cons_cons]
  · rw [htrim]

/-- **What holds of all that trimming leaves of running text holds of the segments.** -/
theorem onText_trimmed {Q : Text → Prop} {parts : List Segment}
    (hQ : ∀ text front kept back, Trimmed text front kept back → Q text → P kept)
    (h : OnText Q (merge parts)) : OnText P (ofParts parts) := by
  -- Running text in front stays apart from what the segments become, as it was apart from them.
  have key {segments : List Segment} (halternating : Alternating segments)
      (hne : ∀ s ∈ segments, s.text ≠ []) (h : OnText Q segments) :
      OnText P (merge (segments.flatMap Segment.trimEdges)) ∧
        ∀ kind ≠ .markup, Apart kind segments →
          Apart kind (merge (segments.flatMap Segment.trimEdges)) := by
    induction segments with
    | nil => exact ⟨fun _ hmem => absurd hmem List.not_mem_nil, fun _ _ hapart => hapart⟩
    | cons segment segments ih =>
      obtain ⟨hapart, halternating⟩ := halternating
      obtain ⟨hfirst, hne⟩ := List.forall_mem_cons.mp hne
      obtain ⟨htext, h⟩ := List.forall_mem_cons.mp h
      obtain ⟨hrunning, hstays⟩ := ih halternating hne h
      rw [List.flatMap_cons, merge, List.foldr_append]
      refine ⟨hrunning.trimEdges (fun hkind => hstays _ hkind hapart) ?_, ?_⟩
      · exact fun hkind front kept back htrimmed => hQ _ front kept back htrimmed (htext hkind)
      · intro kind hkind hother next hnext
        rw [← texts_trimEdges segment] at hfirst
        have hhead : next.kind = segment.kind ∨ next.kind = .markup :=
          kind_head_foldr (Q := fun k => k = segment.kind ∨ k = .markup) hfirst
            (fun _ => kind_of_mem_trimEdges) next hnext
        rcases hhead with heq | heq
        · exact heq ▸ hother segment rfl
        · exact heq ▸ hkind.symm
  exact (key (alternating_merge parts) (fun _ => text_ne_nil_of_mem_merge) h).1

/-- What holds of running text and survives trimming holds of the segments. -/
theorem onText_ofParts {parts : List Segment} (hP : Trimmable P) (h : OnText P (merge parts)) :
    OnText P (ofParts parts) := by
  refine onText_trimmed (fun text front kept back htrimmed htext => ?_) h
  rw [← htrimmed.append] at htext
  exact hP.trail htrimmed.back_blank (hP.lead htrimmed.front_blank htext)

theorem onText_edged (parts : List Segment) : OnText Edged (ofParts parts) :=
  onText_trimmed (Q := fun _ => True) (fun _ _ _ _ htrimmed _ => htrimmed.edged)
    fun _ _ _ => trivial

end Marginalia.Segment
