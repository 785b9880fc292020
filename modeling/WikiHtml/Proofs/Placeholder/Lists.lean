-- What is put in for placeholders is put together of plain elements, and in a table of contents
-- around what the headings of the page hold.
import WikiHtml.Placeholder.Contents
import WikiHtml.Placeholder.PageLinks
import WikiHtml.Proofs.Document.Parts

namespace WikiHtml.Placeholder

open Document

variable {P : Document → Prop}

/-! ## The table of contents -/

theorem around_line {h : Heading} (numbers : List Nat) (hc : ∀ d, h.content = some d → P d) :
    Around P (line h numbers) := by
  have hlabel : ∀ d ∈ text (numbering numbers h.level) :: h.content.toList, Around P d := by
    intro d hd
    rcases List.mem_cons.mp hd with rfl | hd
    · exact (made_text _).around
    · exact .given (hc d (by simpa using hd))
  exact (made_wrapped rfl (made_wrapped rfl (made_group hlabel).around).around).around

theorem around_lines (numbers : List Nat) {hs : List Heading}
    (hc : ∀ h ∈ hs, h.isListed = true → ∀ d, h.content = some d → P d) :
    ∀ d ∈ lines numbers hs, Around P d := by
  induction hs generalizing numbers with
  | nil => simp [lines]
  | cons h rest ih =>
    have hrest : ∀ numbers, ∀ d ∈ lines numbers rest, Around P d := fun numbers =>
      ih numbers fun h hm => hc h (List.mem_cons_of_mem _ hm)
    rw [lines]
    split
    · rename_i hlisted
      exact List.forall_mem_cons.mpr ⟨around_line _ (hc h (by simp) hlisted), hrest _⟩
    · exact hrest numbers

/-- A document is what a heading in the page holds that has a line. -/
def InHeading (page d : Document) : Prop :=
  ∃ level span, page.Part (.node (.wrap (.heading level) (some d)) span) ∧
    Heading.isListed ⟨level, some d⟩ = true

theorem made_tableOfContents (page : Document) :
    Made (InHeading page) (tableOfContents page) := by
  refine made_group (around_lines _ fun h hm hlisted d hd => ?_)
  obtain ⟨⟨e, span⟩, hpart, hpick⟩ := mem_outermost hm
  simp only [element, heading?] at hpick
  split at hpick
  · rename_i level child
    cases hpick
    obtain rfl : child = some d := hd
    exact ⟨level, span, hpart, hlisted⟩
  · cases hpick

/-! ## Links to pages -/

theorem made_stepwiseLinks (path : String) : Made P (stepwiseLinks path) := by
  refine made_group (around_intersperse (fun d hd => ?_) (made_text _).around)
  obtain ⟨⟨target, step⟩, _, rfl⟩ := List.mem_map.mp hd
  exact (made_pageLink _ _).around

theorem made_pageName (path : String) (format : NameFormat) (linked : Bool) :
    Made P (pageName path format linked) := by
  unfold pageName
  dsimp only
  split
  · exact made_text _
  · cases format
    · exact made_stepwiseLinks _
    · exact made_stepwiseLinks _
    · exact made_pageLink _ _

theorem made_pageList {paths : List String} {listing : Listing} {d : Document}
    (h : pageList paths listing = some d) : Made P d := by
  have hlinks : ∀ c ∈ paths.map (fun path => pageLink path (listing.format.apply path)),
      Around P c := by
    intro c hc
    obtain ⟨path, _, rfl⟩ := List.mem_map.mp hc
    exact (made_pageLink _ _).around
  simp only [pageList] at h
  split at h
  · obtain ⟨s, _, rfl⟩ := Option.map_eq_some_iff.mp h
    exact made_text s
  · split at h
    · split at h <;> cases h
      · exact made_group (around_intersperse hlinks (made_text _).around)
      · exact made_group hlinks
    · cases h
      refine made_group fun c hc => ?_
      obtain ⟨link, hlink, rfl⟩ := List.mem_map.mp hc
      exact (made_wrapped rfl (hlinks link hlink)).around

end WikiHtml.Placeholder
