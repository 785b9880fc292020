-- What a table of contents says. It has a line for each heading of the first three levels below the
-- page around it that is inside no other heading, in the order of the page. The number of the line tells
-- where the heading stands among those before it.
import WikiHtml.Proofs.Document.Origin
import WikiHtml.Proofs.Placeholder.Numbering
import WikiHtml.Proofs.Tree.Headings
import WikiHtml.Substitution.Pass

namespace WikiHtml.Substitution

open Placeholder

/-- A node of a page has a line in its table of contents: it is a heading of one of the first three
levels, and inside no other heading. -/
structure HasLine (t : Tree) (page : Outline) (x : NodeId) : Prop where
  below : x ∈ page.ids
  level : ∃ level child, t.element x = .wrap (.heading level) child ∧ 1 ≤ level ∧ level ≤ 3
  outermost : ∀ y ∈ page.ids, (t.element y).isWrap Wrapper.isHeading = true → t.Reaches y x → y = x

/-- What a table of contents of a page says: there is one entry for each heading that has a line, and
the headings stand in the page in the order of the entries. -/
structure Lists (t : Tree) (page : Outline) (listed : List NodeId) (entries : List Entry)
    (toc : Document) : Prop where
  lines : toc = .group (entries.map Entry.line)
  headings : listed.map t.headingAt? = (entries.map Entry.heading).map some
  mem_iff : ∀ x, x ∈ listed ↔ HasLine t page x
  inOrder : listed.Sublist page.ids
  numbered : Numbered entries
  ascending : (entries.map Entry.number).Pairwise (· < ·)
  distinct : (entries.map Entry.numberText).Nodup

/-! ## The headings that have a line -/

theorem isWrap_isListed_iff {α : Type} {e : Element α} :
    e.isWrap Wrapper.isListed = true ↔
      ∃ level child, e = .wrap (.heading level) child ∧ 1 ≤ level ∧ level ≤ 3 := by
  constructor
  · intro h
    rcases e with members | ⟨w, child⟩ | ⟨params, rows⟩ | l
    · cases h
    · cases w with
      | heading level => exact ⟨level, child, rfl, isListed_iff.mp h⟩
      | _ => cases h
    · cases h
    · cases h
  · rintro ⟨level, child, rfl, h⟩
    exact isListed_iff.mpr h

theorem any_heading? (e : Element Document) :
    (heading? e).any Heading.isListed = e.isWrap Wrapper.isListed := by
  rcases e with members | ⟨w, child⟩ | ⟨params, rows⟩ | l
  · rfl
  · cases w <;> rfl
  · rfl
  · rfl

/-- The nodes of a page that have a line. -/
def listedHeadings (t : Tree) (page : NodeId) : List NodeId :=
  (t.headings page).filter fun x => (t.headingAt? x).any Heading.isListed

section

variable {t : Tree} {o : Outline}

/-- Whether a heading is listed can be told without what it holds. -/
theorem any_headingAt? (hs : t.Spans o) (hn : o.ids.Nodup) {x : NodeId} (hx : x ∈ o.ids) :
    (t.headingAt? x).any Heading.isListed = (t.element x).isWrap Wrapper.isListed := by
  obtain ⟨held, hsx, hnx⟩ := hs.descend hn hx
  rw [Tree.headingAt?_below hs hn hx, any_heading?, ← Element.isWrap_bare,
    (Grading.held_of_shown hsx hnx).1, Element.isWrap_bare]

theorem mem_listedHeadings (hs : t.Spans o) (hn : o.ids.Nodup) {x : NodeId} :
    x ∈ listedHeadings t o.id ↔ HasLine t o x := by
  have hfound := Tree.mem_matchesWithin (p := (·.isWrap Wrapper.isHeading)) hs hn
    (Tree.length_ids_le hs hn) (x := x)
  rw [listedHeadings, List.mem_filter]
  constructor
  · rintro ⟨hx, hl⟩
    obtain ⟨hid, -, houter⟩ := hfound.mp hx
    rw [any_headingAt? hs hn hid] at hl
    exact ⟨hid, isWrap_isListed_iff.mp hl, houter⟩
  · rintro ⟨hid, hlevel, houter⟩
    have hl := isWrap_isListed_iff.mpr hlevel
    refine ⟨hfound.mpr ⟨hid, Element.isHeading_of_isListed hl, houter⟩, ?_⟩
    rw [any_headingAt? hs hn hid]
    exact hl

theorem listedHeadings_sublist (hs : t.Spans o) : (listedHeadings t o.id).Sublist o.ids :=
  List.filter_sublist.trans (Tree.matchesWithin_sublist _ _ hs _)

end

/-- The listed headings are shown by the nodes that have a line. -/
theorem map_filter_any {α β : Type} (f : α → Option β) (q : β → Bool) (xs : List α) :
    (xs.filter fun x => (f x).any q).map f = ((xs.filterMap f).filter q).map some := by
  induction xs with
  | nil => rfl
  | cons x rest ih =>
    rcases hfound : f x with _ | found
    · simp [hfound, ih]
    · by_cases hq : q found = true <;> simp [hfound, hq, ih]

/-! ## Tables of contents -/

section

variable {t t' : Tree} {id : NodeId} {page : Outline}

/-- A table of contents has the lines of the headings around it. -/
theorem contentsOf_eq (hpage : t.contextPage id false = some page.id) (hs : t.Spans page)
    (hn : page.ids.Nodup) :
    contentsOf t id = .group (lines (List.replicate deepestLevel 0)
      ((t.headings page.id).filterMap t.headingAt?)) := by
  unfold contentsOf
  rw [hpage, Option.bind_some, Tree.document?_eq_shown hs hn]
  dsimp only
  rw [tableOfContents, Tree.outermost_shown hs hn]

/-- The entries of the headings of a page. -/
def contentsEntries (t : Tree) (page : NodeId) : List Entry :=
  entriesAfter [] (((t.headings page).filterMap t.headingAt?).filter Heading.isListed)

theorem lists_contentsOf (hpage : t.contextPage id false = some page.id) (hs : t.Spans page)
    (hn : page.ids.Nodup) :
    Lists t page (listedHeadings t page.id) (contentsEntries t page.id) (contentsOf t id) := by
  have hlines : contentsOf t id = .group ((contentsEntries t page.id).map Entry.line) := by
    rw [contentsOf_eq hpage hs hn, contentsEntries, ← lines_counts]
    rfl
  have hheadings : (listedHeadings t page.id).map t.headingAt? =
      ((contentsEntries t page.id).map Entry.heading).map some := by
    rw [listedHeadings, map_filter_any, contentsEntries, map_heading_entriesAfter]
  have hascending : ((contentsEntries t page.id).map Entry.number).Pairwise (· < ·) :=
    ascending_entriesAfter (fun h hh => (isListed_iff.mp (List.mem_filter.mp hh).2).1) []
  exact ⟨hlines, hheadings, fun x => mem_listedHeadings hs hn, listedHeadings_sublist hs,
    numbered _, hascending, nodup_numberText hascending⟩

/-- A heading stays while its nodes do. -/
theorem headingAt?_of_changes (hc : t.Changes t' []) (hs : t.Spans page) (hn : page.ids.Nodup)
    {x : NodeId} (hx : x ∈ page.ids) : t'.headingAt? x = t.headingAt? x := by
  have hs' : t'.Spans page :=
    hs.congr hc.size_le fun y hy => hc.element_eq y (hs.lt_size y hy) (by simp)
  obtain ⟨held, hsx, hnx⟩ := hs.descend hn hx
  have hshown : t'.shown x = t.shown x := hc.shown_eq hsx hnx (by simp)
  rw [Tree.headingAt?_below hs' hn hx, hshown, Tree.headingAt?_below hs hn hx]

/-- For every page in a tree, the table of contents of a node in it has a line for each heading of the
levels 1 to 3 that is inside no other heading. The lines are in the order of the page and numbered by
the levels, so that the numbers ascend. When it is put into the tree, all of it is new, and the headings
are as they were. -/
theorem contents_number_the_outermost_headings_of_the_page
    (hpage : t.contextPage id false = some page.id) (hs : t.Spans page) (hn : page.ids.Nodup) :
    ∃ listed entries new, Lists t page listed entries (contentsOf t id) ∧
      new.id = (t.addDocument (contentsOf t id)).1 ∧
      t.Planted (t.addDocument (contentsOf t id)).2 [new] [contentsOf t id] ∧
      ∀ x ∈ listed, (t.addDocument (contentsOf t id)).2.headingAt? x = t.headingAt? x := by
  obtain ⟨new, hnew, hplanted⟩ := Tree.addDocument_planted t (contentsOf t id)
  have hlists := lists_contentsOf hpage hs hn
  exact ⟨_, _, new, hlists, hnew, hplanted, fun x hx =>
    headingAt?_of_changes hplanted.changes hs hn (hlists.inOrder.subset hx)⟩

end

/-- A page with headings: the first level, one is left out, one is too deep, and one goes back. -/
def pageWithLevels : Document :=
  .node (.wrap (.page (some "/p")) (some (.node (.list [.node (.leaf .tableOfContents) none,
    .node (.wrap (.heading 1) (some (.node (.leaf (.text "a")) none))) none,
    .node (.wrap (.heading 3) (some (.node (.leaf (.text "b")) none))) none,
    .node (.wrap (.heading 4) (some (.node (.leaf (.text "c")) none))) none,
    .node (.wrap (.heading 2) (some (.node (.leaf (.text "d")) none))) none]) none))) none

theorem a_left_out_level_counts_zero :
    (contentsOf (.ofDocument pageWithLevels) 0).textContent = "1. a1.0.1. b1.1. d" ∧
      ∃ page listed entries, (Tree.ofDocument pageWithLevels).contextPage 0 false = some page.id ∧
        Lists (.ofDocument pageWithLevels) page listed entries
          (contentsOf (.ofDocument pageWithLevels) 0) := by
  obtain ⟨page, hroot, hstands, -, -⟩ := Tree.ofDocument_stands pageWithLevels
  have hpage : (Tree.ofDocument pageWithLevels).contextPage 0 false = some page.id := by
    rw [← hroot]
    decide
  obtain ⟨listed, entries, -, hlists, -⟩ :=
    contents_number_the_outermost_headings_of_the_page hpage hstands.spans hstands.nodup
  exact ⟨by decide, page, listed, entries, hpage, hlists⟩

end WikiHtml.Substitution
