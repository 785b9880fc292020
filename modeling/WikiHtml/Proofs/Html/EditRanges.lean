-- The ranges of the source text that there are links to the editor for: those of tables, of what
-- their cells hold, of code blocks, and of sections. Each belongs to the page that it stands in.
import WikiHtml.Proofs.Html.Script

namespace WikiHtml

namespace Html

open Document

/-- The range of a link to the editor, where the page and the range are known. -/
def editRange? (context : Context) (span : Option Span) : Option EditRange := do
  return ⟨← context.join, ← span⟩

theorem editRange?_none (context : Context) : editRange? context none = none := by
  unfold editRange?
  rcases context.join with _ | path <;> rfl

/-- The section of a heading starts where the heading does. -/
theorem section?_eq_some {place : Place} {level : Nat} {span : Option Span} {part : Span}
    (h : section? place level span = some part) :
    ∃ a inList stop, span = some a ∧ place.inList = some inList ∧
      inList.sectionEnd? level = some stop ∧ part = ⟨a.first, stop⟩ := by
  obtain ⟨a, ha, h⟩ := Option.bind_eq_some_iff.mp h
  obtain ⟨inList, hinList, h⟩ := Option.bind_eq_some_iff.mp h
  obtain ⟨stop, hstop, h⟩ := Option.bind_eq_some_iff.mp h
  exact ⟨a, inList, stop, ha, hinList, hstop, (Option.some.inj h).symm⟩

/-- A section ends where another heading starts, or where the list ends. -/
theorem sectionEnd?_eq_some {inList : InList} {level stop : Nat}
    (h : inList.sectionEnd? level = some stop) :
    (∃ next ∈ inList.following, (headingLevel? next.element).isSome = true ∧
      ∃ b ∈ next.span, stop = b.first) ∨ ∃ b ∈ inList.span, stop = b.last := by
  unfold InList.sectionEnd? at h
  split at h
  · rename_i next hnext
    obtain ⟨b, hb, rfl⟩ := Option.map_eq_some_iff.mp h
    have hends : endsSection level next = true := List.find?_some hnext
    obtain ⟨level', hlevel', _⟩ := (Option.any_eq_true _ _).mp hends
    exact Or.inl ⟨next, List.mem_of_find?_eq_some hnext, by rw [hlevel']; rfl, b, hb, rfl⟩
  · obtain ⟨b, hb, rfl⟩ := Option.map_eq_some_iff.mp h
    exact Or.inr ⟨b, hb, rfl⟩

/-- The range of the section of a heading. -/
def headingRange? (place : Place) (d : Document) : Option EditRange :=
  (headingLevel? d.element).bind fun level =>
    editRange? place.context (section? place level d.span)

/-- A heading has a section only as a member of a list. -/
theorem headingRange?_of_not_inList {place : Place} (h : place.inList = none) (d : Document) :
    headingRange? place d = none := by
  unfold headingRange?
  rcases headingLevel? d.element with _ | level
  · rfl
  · have hnone : section? place level d.span = none := by
      unfold section?
      rw [h]
      cases d.span <;> rfl
    rw [Option.bind_some, hnone, editRange?_none]

/-- The ranges of the sections in a list, of which the last members and the range are given. -/
def sectionRanges (context : Context) (span : Option Span) : List Document → List EditRange
  | [] => []
  | d :: rest => (headingRange? ⟨context, none, some ⟨rest, span⟩⟩ d).toList ++
      sectionRanges context span rest

/-- The ranges of what the cells of a table hold. -/
def cellRanges (context : Context) (contents : List Document) : List EditRange :=
  contents.filterMap fun d => editRange? context d.span

/-- The ranges at an element of a page. Those of sections are found at the list that the headings are
members of. -/
def ownRanges (context : Context) (d : Document) : List EditRange :=
  match d.element with
  | .list members => sectionRanges context d.span members
  | .table _ rows =>
    (editRange? context d.span).toList ++ cellRanges context (Element.contents rows)
  | .leaf (.code _ _) => (editRange? context d.span).toList
  | _ => []

end Html

namespace Document

open Html

/-- The ranges that there may be links to the editor for. -/
def editRanges (context : Context) (d : Document) : List EditRange :=
  d.search (fun context d =>
    (ownRanges (contextOf context d.element) d, some (contextOf context d.element))) context

theorem editRanges_node (context : Context) (e : Element Document) (span : Option Span) :
    editRanges context (.node e span) =
      ownRanges (contextOf context e) (.node e span) ++
        e.children.flatMap (editRanges (contextOf context e)) := by
  unfold editRanges
  rw [search_node, Option.toList_some, List.flatMap_singleton]
  rfl

end Document

end WikiHtml
