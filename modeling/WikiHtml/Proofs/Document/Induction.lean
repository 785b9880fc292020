-- Induction over documents: what passes from the held elements to their holder holds of every
-- document. The proofs follow `Element.children`, so lists, tables and all other holders are one
-- case.
import WikiHtml.Proofs.Element.Children

namespace WikiHtml.Document

theorem sizeOf_lt_of_mem_children {e : Element Document} {d : Document} (h : d ∈ e.children) :
    sizeOf d < sizeOf e := by
  cases e with
  | list members =>
    have hm : d ∈ members := h
    have := List.sizeOf_lt_of_mem hm
    simp only [Element.list.sizeOf_spec]
    omega
  | wrap w child =>
    rcases child with _ | c
    · simp [Element.children] at h
    · simp only [Element.children, Option.toList_some, List.mem_singleton] at h
      subst h
      simp only [Element.wrap.sizeOf_spec, Option.some.sizeOf_spec]
      omega
  | table params rows =>
    simp only [Element.children, Element.contents, List.mem_flatMap, List.mem_filterMap] at h
    obtain ⟨row, hrow, cell, hcell, hd⟩ := h
    have h1 := List.sizeOf_lt_of_mem hrow
    have h2 := List.sizeOf_lt_of_mem hcell
    obtain ⟨rowParams, cells⟩ := row
    obtain ⟨header, cellParams, content⟩ := cell
    dsimp only at hd h2
    subst hd
    simp only [Row.mk.sizeOf_spec, Cell.mk.sizeOf_spec, Option.some.sizeOf_spec,
      Element.table.sizeOf_spec] at h1 h2 ⊢
    omega
  | leaf l => simp [Element.children] at h

/-- What holds of a document if it holds of those that its top holds, holds of every document. -/
@[elab_as_elim]
theorem induct {P : Document → Prop}
    (node : ∀ e span, (∀ d ∈ Element.children e, P d) → P (.node e span)) : ∀ d, P d
  | .node e span => node e span fun d _ => induct node d
termination_by d => sizeOf d
decreasing_by
  rename_i h
  have := sizeOf_lt_of_mem_children h
  simp only [Document.node.sizeOf_spec]
  omega

end WikiHtml.Document
