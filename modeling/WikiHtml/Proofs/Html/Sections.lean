-- The sections of a list, the parts of its source text that its headings are edited with. A section
-- ends where the next heading of the same or a lower level starts. So of two sections one lies in the
-- other or they have nothing in common, and those of the lowest level make up the list.
import WikiHtml.Proofs.Html.EditRanges

namespace WikiHtml.Html

/-! ## Sections by their levels -/

/-- A section: the level of its heading, and its range. -/
structure Section where
  level : Nat
  range : Span
  deriving DecidableEq, Repr

/-- Where a section ends that others follow: where the first of the same or a lower level starts, or
else at the end of all. -/
def stopBefore (stop level : Nat) (following : List Section) : Nat :=
  ((following.find? (·.level ≤ level)).map (·.range.first)).getD stop

/-- Each section ends as those after it say. -/
def Cut (stop : Nat) : List Section → Prop
  | [] => True
  | a :: rest => a.range.last = stopBefore stop a.level rest ∧ Cut stop rest

/-- Sections start one after the other, and none after the end of all. -/
structure Ascending (stop : Nat) (sections : List Section) : Prop where
  pairwise : sections.Pairwise fun a b => a.range.first ≤ b.range.first
  inside : ∀ a ∈ sections, a.range.first ≤ stop

/-- Ranges follow each other from one place to another, with no gap between them and nothing in
common. -/
def Tiles : Nat → List Span → Nat → Prop
  | start, [], stop => start = stop
  | start, a :: rest, stop => a.first = start ∧ a.first ≤ a.last ∧ Tiles a.last rest stop

section

variable {stop level : Nat} {a b : Section} {sections before between after : List Section}

theorem stopBefore_cons_of_le (h : a.level ≤ level) (rest : List Section) :
    stopBefore stop level (a :: rest) = a.range.first := by
  simp [stopBefore, h]

theorem stopBefore_cons_of_lt (h : level < a.level) (rest : List Section) :
    stopBefore stop level (a :: rest) = stopBefore stop level rest := by
  simp [stopBefore, Nat.not_le.mpr h]

theorem Ascending.tail {rest : List Section} (h : Ascending stop (a :: rest)) :
    Ascending stop rest :=
  ⟨(List.pairwise_cons.mp h.pairwise).2, fun b hb => h.inside b (List.mem_cons_of_mem a hb)⟩

theorem Ascending.append_right (h : Ascending stop (before ++ after)) : Ascending stop after :=
  ⟨(List.pairwise_append.mp h.pairwise).2.1, fun b hb =>
    h.inside b (List.mem_append_right before hb)⟩

theorem Cut.append_right (h : Cut stop (before ++ after)) : Cut stop after := by
  induction before with
  | nil => exact h
  | cons a rest ih => exact ih h.2

/-- A section ends where one of the same or a lower level starts, or with all. -/
theorem stopBefore_cases (stop level : Nat) (sections : List Section) :
    (∃ b ∈ sections, b.level ≤ level ∧ stopBefore stop level sections = b.range.first) ∨
      stopBefore stop level sections = stop := by
  unfold stopBefore
  rcases hfound : sections.find? (·.level ≤ level) with _ | b
  · exact .inr (by rw [hfound]; rfl)
  · have hlevel := List.find?_some hfound
    exact .inl ⟨b, List.mem_of_find?_eq_some hfound, of_decide_eq_true hlevel, by rw [hfound]; rfl⟩

theorem Ascending.stopBefore_le_stop (h : Ascending stop sections) (level : Nat) :
    stopBefore stop level sections ≤ stop := by
  rcases stopBefore_cases stop level sections with ⟨b, hb, -, heq⟩ | heq
  · exact heq ▸ h.inside b hb
  · exact heq.le

/-- A section ends before every later one of the same or a lower level. -/
theorem Ascending.stopBefore_le (h : Ascending stop sections) (hb : b ∈ sections)
    (hlevel : b.level ≤ level) : stopBefore stop level sections ≤ b.range.first := by
  induction sections with
  | nil => cases hb
  | cons a rest ih =>
    by_cases ha : a.level ≤ level
    · rw [stopBefore_cons_of_le ha]
      rcases List.mem_cons.mp hb with rfl | hb
      · exact le_rfl
      · exact (List.pairwise_cons.mp h.pairwise).1 b hb
    · rw [stopBefore_cons_of_lt (Nat.lt_of_not_le ha)]
      refine ih h.tail ((List.mem_cons.mp hb).resolve_left ?_)
      rintro rfl
      exact ha hlevel

/-- A section of a higher level ends no later. -/
theorem Ascending.stopBefore_mono {level' : Nat} (h : Ascending stop sections)
    (hlevel : level ≤ level') : stopBefore stop level' sections ≤ stopBefore stop level sections := by
  rcases stopBefore_cases stop level sections with ⟨b, hb, hle, heq⟩ | heq
  · rw [heq]
    exact h.stopBefore_le hb (hle.trans hlevel)
  · rw [heq]
    exact h.stopBefore_le_stop level'

theorem stopBefore_append_of_lt (h : ∀ c ∈ between, level < c.level) (after : List Section) :
    stopBefore stop level (between ++ after) = stopBefore stop level after := by
  induction between with
  | nil => rfl
  | cons a rest ih =>
    rw [List.cons_append, stopBefore_cons_of_lt (h a List.mem_cons_self)]
    exact ih fun c hc => h c (List.mem_cons_of_mem a hc)

/-- A section does not end before it starts. -/
theorem Ascending.le_stopBefore {rest : List Section} (h : Ascending stop (a :: rest))
    (level : Nat) : a.range.first ≤ stopBefore stop level rest := by
  rcases stopBefore_cases stop level rest with ⟨b, hb, -, heq⟩ | heq
  · rw [heq]
    exact (List.pairwise_cons.mp h.pairwise).1 b hb
  · rw [heq]
    exact h.inside a List.mem_cons_self

/-! ## Nesting -/

/-- Of two sections the later one starts no earlier. -/
theorem Ascending.first_le (h : Ascending stop (a :: (between ++ b :: after))) {c : Section}
    (hc : c ∈ a :: (between ++ [b])) : c.range.first ≤ b.range.first := by
  rw [← List.cons_append] at h hc
  rcases List.mem_append.mp hc with hc | hc
  · exact (List.pairwise_append.mp h.pairwise).2.2 c hc b List.mem_cons_self
  · rw [List.mem_singleton.mp hc]

/-- A section holds those after it up to the next one of the same or a lower level. -/
theorem Cut.nested (h : Cut stop (a :: (between ++ b :: after)))
    (hasc : Ascending stop (a :: (between ++ b :: after)))
    (hlevels : ∀ c ∈ between ++ [b], a.level < c.level) : b.range.last ≤ a.range.last := by
  have hbetween : ∀ c ∈ between, a.level < c.level := fun c hc =>
    hlevels c (List.mem_append_left [b] hc)
  have hb : a.level < b.level := hlevels b (by simp)
  have hlast : b.range.last = stopBefore stop b.level after := (Cut.append_right h.2).1
  rw [h.1, hlast, stopBefore_append_of_lt hbetween, stopBefore_cons_of_lt hb]
  exact hasc.tail.append_right.tail.stopBefore_mono hb.le

/-- A section ends before all that come after one of the same or a lower level. -/
theorem Cut.disjoint (h : Cut stop (a :: (between ++ b :: after)))
    (hasc : Ascending stop (a :: (between ++ b :: after))) {c : Section}
    (hc : c ∈ between ++ [b]) (hlevel : c.level ≤ a.level) : a.range.last ≤ b.range.first := by
  have hmem : c ∈ between ++ b :: after := by
    rw [List.append_cons]
    exact List.mem_append_left after hc
  calc a.range.last
      = stopBefore stop a.level (between ++ b :: after) := h.1
    _ ≤ c.range.first := hasc.tail.stopBefore_le hmem hlevel
    _ ≤ b.range.first := hasc.first_le (List.mem_cons_of_mem a hc)

/-- The sections of the lowest level make up all from the first of them to the end. -/
theorem Cut.tiles (h : Cut stop sections) (hasc : Ascending stop sections)
    (hlevel : ∀ c ∈ sections, level ≤ c.level) :
    Tiles (stopBefore stop level sections)
      ((sections.filter (·.level = level)).map (·.range)) stop := by
  induction sections with
  | nil => rfl
  | cons a rest ih =>
    have hrest := ih h.2 hasc.tail fun c hc => hlevel c (List.mem_cons_of_mem a hc)
    by_cases ha : a.level = level
    · rw [stopBefore_cons_of_le ha.le, List.filter_cons_of_pos (by simpa using ha), List.map_cons]
      refine ⟨rfl, ?_, ?_⟩
      · rw [h.1]
        exact hasc.le_stopBefore a.level
      · rw [h.1, ha]
        exact hrest
    · have hlt : level < a.level := lt_of_le_of_ne (hlevel a List.mem_cons_self) (Ne.symm ha)
      rw [stopBefore_cons_of_lt hlt, List.filter_cons_of_neg (by simpa using ha)]
      exact hrest

end

/-! ## The sections of a list -/

/-- The members of a list have ranges, none of which ends before it starts, that follow each other
between two places. -/
def InOrder : Nat → List Document → Nat → Prop
  | start, [], stop => start ≤ stop
  | start, d :: rest, stop =>
    ∃ a, d.span = some a ∧ start ≤ a.first ∧ a.first ≤ a.last ∧ InOrder a.last rest stop

/-- The headings among the members of a list, each by its level and the section that there is a link
to the editor for. -/
def sectionsAt (place : Place) (span : Option Span) : List Document → List (Nat × Option Span)
  | [] => []
  | d :: rest => ((headingLevel? d.element).map fun level =>
      (level, section? (place.member rest span) level d.span)).toList ++ sectionsAt place span rest

/-- The sections of the headings among the members of a list that ends somewhere. -/
def sectionsOf (stop : Nat) : List Document → List Section
  | [] => []
  | d :: rest =>
    match headingLevel? d.element, d.span with
    | some level, some a =>
      ⟨level, ⟨a.first, stopBefore stop level (sectionsOf stop rest)⟩⟩ :: sectionsOf stop rest
    | _, _ => sectionsOf stop rest

section

variable {start stop level : Nat} {list : Span} {place : Place} {members : List Document}

theorem InOrder.le (h : InOrder start members stop) : start ≤ stop := by
  induction members generalizing start with
  | nil => exact h
  | cons d rest ih =>
    obtain ⟨a, -, hfirst, hlast, hrest⟩ := h
    exact (hfirst.trans hlast).trans (ih hrest)

theorem sectionsOf_heading {d : Document} {a : Span} (hlevel : headingLevel? d.element = some level)
    (ha : d.span = some a) (stop : Nat) (rest : List Document) :
    sectionsOf stop (d :: rest) =
      ⟨level, ⟨a.first, stopBefore stop level (sectionsOf stop rest)⟩⟩ :: sectionsOf stop rest := by
  simp only [sectionsOf, hlevel, ha]

theorem sectionsOf_other {d : Document} (hlevel : headingLevel? d.element = none) (stop : Nat)
    (rest : List Document) : sectionsOf stop (d :: rest) = sectionsOf stop rest := by
  simp only [sectionsOf, hlevel]

/-- Sections start where their headings do. -/
theorem InOrder.inside (h : InOrder start members stop) :
    ∀ s ∈ sectionsOf stop members, start ≤ s.range.first ∧ s.range.first ≤ stop := by
  induction members generalizing start with
  | nil => nofun
  | cons d rest ih =>
    obtain ⟨a, ha, hfirst, hlast, hrest⟩ := h
    have hlater : ∀ s ∈ sectionsOf stop rest, start ≤ s.range.first ∧ s.range.first ≤ stop :=
      fun s hs => ⟨(hfirst.trans hlast).trans (ih hrest s hs).1, (ih hrest s hs).2⟩
    rcases hlevel : headingLevel? d.element with _ | level
    · rw [sectionsOf_other hlevel]
      exact hlater
    · rw [sectionsOf_heading hlevel ha, List.forall_mem_cons]
      exact ⟨⟨hfirst, hlast.trans hrest.le⟩, hlater⟩

theorem InOrder.ascending (h : InOrder start members stop) :
    Ascending stop (sectionsOf stop members) := by
  refine ⟨?_, fun s hs => (h.inside s hs).2⟩
  induction members generalizing start with
  | nil => exact List.Pairwise.nil
  | cons d rest ih =>
    obtain ⟨a, ha, hfirst, hlast, hrest⟩ := h
    rcases hlevel : headingLevel? d.element with _ | level
    · rw [sectionsOf_other hlevel]
      exact ih hrest
    · rw [sectionsOf_heading hlevel ha, List.pairwise_cons]
      exact ⟨fun s hs => hlast.trans (hrest.inside s hs).1, ih hrest⟩

theorem cut_sectionsOf (stop : Nat) (members : List Document) :
    Cut stop (sectionsOf stop members) := by
  induction members with
  | nil => trivial
  | cons d rest ih =>
    unfold sectionsOf
    split
    · exact ⟨rfl, ih⟩
    · exact ih

/-- The section of a heading ends where the sections after it say. -/
theorem InOrder.sectionEnd?_eq (h : InOrder start members list.last) (level : Nat) :
    (⟨members, some list⟩ : InList).sectionEnd? level =
      some (stopBefore list.last level (sectionsOf list.last members)) := by
  induction members generalizing start with
  | nil => rfl
  | cons d rest ih =>
    obtain ⟨a, ha, -, -, hrest⟩ := h
    have hskip (hends : endsSection level d = false) :
        (⟨d :: rest, some list⟩ : InList).sectionEnd? level =
          (⟨rest, some list⟩ : InList).sectionEnd? level := by
      simp only [InList.sectionEnd?, List.find?_cons, hends]
    rcases hlevel : headingLevel? d.element with _ | next
    · rw [hskip (by simp [endsSection, hlevel]), ih hrest, sectionsOf_other hlevel]
    · rw [sectionsOf_heading hlevel ha]
      by_cases hle : next ≤ level
      · have hends : endsSection level d = true := by simp [endsSection, hlevel, hle]
        rw [stopBefore_cons_of_le hle]
        simp only [InList.sectionEnd?, List.find?_cons, hends, ha, Option.map_some]
      · rw [hskip (by simp [endsSection, hlevel, hle]), ih hrest,
          stopBefore_cons_of_lt (Nat.lt_of_not_le hle)]

/-- Every heading has a section. -/
theorem InOrder.sectionsAt_eq (h : InOrder start members list.last) (place : Place) :
    sectionsAt place (some list) members =
      (sectionsOf list.last members).map fun s => (s.level, some s.range) := by
  induction members generalizing start with
  | nil => rfl
  | cons d rest ih =>
    obtain ⟨a, ha, -, -, hrest⟩ := h
    unfold sectionsAt
    rw [ih hrest]
    rcases hlevel : headingLevel? d.element with _ | level
    · rw [sectionsOf_other hlevel]
      rfl
    · have hstop := hrest.sectionEnd?_eq level
      have hsection : section? (place.member rest (some list)) level (some a) =
          some ⟨a.first, stopBefore list.last level (sectionsOf list.last rest)⟩ := by
        simp only [section?, Place.member, Option.bind_eq_bind, Option.bind_some, hstop]
        rfl
      rw [sectionsOf_heading hlevel ha, ha, Option.map_some, hsection]
      rfl

/-- The links to the editor are for the sections of the headings. -/
theorem sectionRanges_eq (place : Place) (span : Option Span) (members : List Document) :
    sectionRanges place.context span members =
      (sectionsAt place span members).filterMap fun s => editRange? place.context s.2 := by
  induction members with
  | nil => rfl
  | cons d rest ih =>
    unfold sectionRanges sectionsAt
    rw [ih, List.filterMap_append]
    rcases hlevel : headingLevel? d.element with _ | level
    · simp [headingRange?, hlevel]
    · have hsection : section? ⟨place.context, none, some ⟨rest, span⟩⟩ level d.span
          = section? (place.member rest span) level d.span := rfl
      simp only [headingRange?, hlevel, Option.bind_some, hsection, Option.map_some,
        Option.toList_some, List.filterMap_cons, List.filterMap_nil]
      rcases editRange? place.context (section? (place.member rest span) level d.span) with _ | range
      · rfl
      · rfl

/-- A section does not end before it starts, and no later than the list. -/
theorem Cut.bounds {sections : List Section} (h : Cut stop sections)
    (hasc : Ascending stop sections) :
    ∀ s ∈ sections, s.range.first ≤ s.range.last ∧ s.range.last ≤ stop := by
  induction sections with
  | nil => nofun
  | cons a rest ih =>
    rw [List.forall_mem_cons, h.1]
    exact ⟨⟨hasc.le_stopBefore a.level, hasc.tail.stopBefore_le_stop a.level⟩, ih h.2 hasc.tail⟩

/-- The headings of a list with ordered members have sections, which the links to the editor are for.
Of two of them, the later section lies in the earlier one if all headings from there on up to its own
have a higher level than the earlier one, and otherwise comes after it; and the sections of the
lowest level follow each other from the first of them to the end of the list. -/
theorem sections_nest_by_levels (h : InOrder list.first members list.last) (place : Place) :
    ∃ sections : List Section,
      sectionsAt place (some list) members = sections.map (fun s => (s.level, some s.range)) ∧
      sectionRanges place.context (some list) members =
        sections.filterMap (fun s => editRange? place.context (some s.range)) ∧
      (∀ s ∈ sections, list.first ≤ s.range.first ∧ s.range.first ≤ s.range.last ∧
        s.range.last ≤ list.last) ∧
      (∀ before a between b after, sections = before ++ a :: (between ++ b :: after) →
        if ∀ c ∈ between ++ [b], a.level < c.level then
          a.range.first ≤ b.range.first ∧ b.range.last ≤ a.range.last
        else a.range.last ≤ b.range.first) ∧
      ∀ level, (∀ s ∈ sections, level ≤ s.level) → ∀ top rest,
        (sections.filter (·.level = level)).map (·.range) = top :: rest →
          Tiles top.first (top :: rest) list.last := by
  have hsections := h.sectionsAt_eq place
  have hasc := h.ascending
  have hcut := cut_sectionsOf list.last members
  refine ⟨sectionsOf list.last members, hsections, ?_, fun s hs => ?_, ?_, ?_⟩
  · rw [sectionRanges_eq, hsections, List.filterMap_map]
    rfl
  · exact ⟨(h.inside s hs).1, hcut.bounds hasc s hs⟩
  · intro before a between b after hsplit
    rw [hsplit] at hasc hcut
    split
    · rename_i hlevels
      exact ⟨hasc.append_right.first_le List.mem_cons_self,
        hcut.append_right.nested hasc.append_right hlevels⟩
    · rename_i hlevels
      push Not at hlevels
      obtain ⟨c, hc, hle⟩ := hlevels
      exact hcut.append_right.disjoint hasc.append_right hc hle
  · intro level hlevel top rest htop
    have htiles := hcut.tiles hasc hlevel
    rw [htop] at htiles
    exact ⟨rfl, htiles.2⟩

end

/-- A list of four members from 0 to 30: a heading, a text, and two headings of higher levels. -/
def chapters : List Document :=
  [.node (.wrap (.heading 1) none) (some ⟨0, 5⟩), .node (.leaf (.text "a")) (some ⟨5, 10⟩),
    .node (.wrap (.heading 3) none) (some ⟨10, 12⟩), .node (.wrap (.heading 2) none) (some ⟨14, 20⟩)]

/-- Outside of pages, the second of the three sections ends where the third one starts, and the first
holds both. -/
theorem a_chapter_holds_its_sections :
    InOrder 0 chapters 30 ∧ ∃ a b c : Section,
      sectionsAt ⟨none, none, none⟩ (some ⟨0, 30⟩) chapters =
        [a, b, c].map (fun s => (s.level, some s.range)) ∧
      (a.range.first ≤ c.range.first ∧ c.range.last ≤ a.range.last) ∧
      b.range.last ≤ c.range.first ∧ Tiles 0 [a.range] 30 := by
  have hinOrder : InOrder (⟨0, 30⟩ : Span).first chapters (⟨0, 30⟩ : Span).last := by
    simp [chapters, InOrder, Document.span]
  obtain ⟨sections, hsections, -, -, hnested, htiles⟩ :=
    sections_nest_by_levels hinOrder ⟨none, none, none⟩
  have hthree : sections = [⟨1, ⟨0, 30⟩⟩, ⟨3, ⟨10, 14⟩⟩, ⟨2, ⟨14, 30⟩⟩] :=
    List.map_injective_iff.mpr (by rintro ⟨⟩ ⟨⟩ h; simp_all) hsections.symm
  subst hthree
  refine ⟨hinOrder, _, _, _, hsections, ?_, ?_, ?_⟩
  · exact hnested [] _ [_] _ [] rfl
  · exact hnested [_] _ [] _ [] rfl
  · exact htiles 1 (by decide) _ _ rfl

end WikiHtml.Html
