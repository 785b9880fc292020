-- The table of contents that is built is the one that is shown: a line for each outermost heading of
-- the page, with a copy of what the heading holds.
import WikiHtml.Building.Contents
import WikiHtml.Proofs.Building.Basic

namespace WikiHtml

open Placeholder

/-! ## Outermost nodes -/

namespace Tree

variable {t : Tree} {id : NodeId} {d : Document} {p : Element NodeId → Bool}

theorem outermost_eq (h : t.document? id = some d) :
    t.outermost id p = t.nodesMatching id p false := by
  rw [outermost, h, Option.isSome_some, if_pos rfl, traverse?_eq h, Option.getD_some]

theorem outermost_eq_nil (h : t.document? id = none) : t.outermost id p = [] := by
  rw [outermost, h]
  rfl

end Tree

/-! ## Headings -/

namespace Placeholder

/-- The text of a heading is that of what it holds. -/
theorem text_of_heading? {d : Document} {h : Heading} (hd : heading? d.element = some h) :
    h.text = d.textContent := by
  obtain ⟨e, span⟩ := d
  obtain rfl : e = _ := heading?_eq_some hd
  unfold Heading.text Document.textContent
  rw [Document.all_node]
  cases h.content with
  | none => rfl
  | some content => simp [Document.textOf?, Element.children]

end Placeholder

namespace Building

variable {t : Tree}

/-- A heading has a child if its document has content, and shows the content there. -/
theorem heading_of_document {id : NodeId} {d : Document} (hd : t.document? id = some d)
    (hp : isHeading (t.element id) = true) :
    ∃ level child content, t.element id = .wrap (.heading level) child ∧
      t.headingAt? id = some ⟨level, content⟩ ∧ (⟨level, content⟩ : Heading).text = d.textContent ∧
      Option.Rel (fun c d => t.document? c = some d) child content := by
  obtain ⟨_, ds, hheld, rfl⟩ := Tree.document?_node hd
  have hat : t.headingAt? id = heading? ((t.element id).refill ds) := by
    rw [Tree.headingAt?, hd]
    rfl
  have htext : ∀ h, heading? ((t.element id).refill ds) = some h →
      h.text = (Document.node ((t.element id).refill ds) (t.span id)).textContent :=
    fun h hh => text_of_heading? hh
  unfold isHeading at hp
  split at hp
  · rename_i level child he
    rw [he] at hheld hat htext ⊢
    cases child with
    | none => exact ⟨level, none, none, rfl, hat, htext _ rfl, .none⟩
    | some c =>
      obtain ⟨content, _, hc, _, rfl⟩ := List.forall₂_cons_left_iff.mp hheld
      exact ⟨level, some c, some content, rfl, hat, htext _ rfl, .some hc⟩
  · cases hp

/-! ## The table -/

theorem makes_line {level : Nat} {child : Option NodeId} {content : Option Document} {shown : String}
    (htext : (⟨level, content⟩ : Heading).text = shown)
    (h : Option.Rel (fun c d => t.document? c = some d) child content) (numbers : List Nat) :
    Makes t (line level child shown numbers) (Placeholder.line ⟨level, content⟩ numbers) := by
  unfold line Placeholder.line
  rw [htext]
  refine makes_wrapped _ (makes_wrapped _ (makes_group (.cons (makes_text _) ?_)))
  cases h with
  | none => exact .nil
  | some hc => exact .cons (makes_copy hc) .nil

theorem makes_lines {ids : List NodeId}
    (h : ∀ id ∈ ids, isHeading (t.element id) = true ∧ ∃ d, t.document? id = some d)
    (numbers : List Nat) :
    List.Forall₂ (Makes t) (lines t numbers ids)
      (Placeholder.lines numbers (ids.filterMap t.headingAt?)) := by
  induction ids generalizing numbers with
  | nil => exact .nil
  | cons id rest ih =>
    obtain ⟨hp, d, hd⟩ := h id List.mem_cons_self
    have hrest := ih fun x hx => h x (List.mem_cons_of_mem id hx)
    obtain ⟨level, child, content, he, hat, htext, hchild⟩ := heading_of_document hd hp
    rw [lines, he, List.filterMap_cons, hat]
    dsimp only
    rw [Placeholder.lines]
    by_cases hl : (1 ≤ level && level ≤ deepestLevel) = true
    · rw [if_pos hl, if_pos (show (⟨level, content⟩ : Heading).isListed = true from hl)]
      exact .cons (makes_line (htext.trans (Tree.stringContent_eq_textContent hd).symm) hchild _) (hrest _)
    · rw [if_neg hl, if_neg (show ¬(⟨level, content⟩ : Heading).isListed = true from hl)]
      exact hrest numbers

theorem isHeading_eq_isWrap (e : Element NodeId) : isHeading e = e.isWrap Wrapper.isHeading := by
  rcases e with members | ⟨w, child⟩ | ⟨params, rows⟩ | l
  · rfl
  · cases w <;> rfl
  · rfl
  · rfl

/-- The table of contents of a page that has a document is built. -/
theorem makes_tableOfContents {page : NodeId} {d : Document} (h : t.document? page = some d) :
    Makes t (tableOfContents t page) (Placeholder.tableOfContents d) := by
  have hheading : ∀ (e : Element NodeId) (ds : List Document), e.Takes ds.length →
      (heading? (e.refill ds)).isSome = isHeading e := by
    intro e ds _
    rw [heading?_isSome, Element.isWrap_refill, isHeading_eq_isWrap]
  have hfound := Tree.outermost_of_document hheading h
  unfold tableOfContents Placeholder.tableOfContents
  rw [Tree.outermost_eq h, hfound]
  exact makes_group (makes_lines (fun x hx => Tree.exists_document_of_mem h hx) _)

/-- Where a page has none, the table is empty. -/
theorem makes_no_tableOfContents {page : NodeId} (h : t.document? page = none) :
    Makes t (tableOfContents t page) (.group []) := by
  unfold tableOfContents
  rw [Tree.outermost_eq_nil h]
  exact makes_group .nil

end Building

end WikiHtml
