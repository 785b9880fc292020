-- The table of events is put together of plain elements only.
import WikiHtml.Event.Table
import WikiHtml.Proofs.Document.Parts

namespace WikiHtml.Event

open Calendar Document

variable {P : Document → Prop}

theorem made_headings (settings : Settings) :
    ∀ cell ∈ (headings settings).cells, ∀ d, cell.content = some d → Made P d := by
  intro cell hcell d hd
  simp only [headings, List.mem_cons, List.not_mem_nil, or_false] at hcell
  rcases hcell with rfl | rfl | rfl <;> cases hd <;> exact made_text _

theorem made_row (e : Entry) :
    ∀ cell ∈ (row e).cells, ∀ d, cell.content = some d → Made P d := by
  intro cell hcell d hd
  simp only [row, List.mem_cons, List.not_mem_nil, or_false] at hcell
  rcases hcell with rfl | rfl | rfl
  · cases hd
    exact made_text _
  · cases hd
    exact made_pageLink _ _
  · unfold ageCell at hd
    split at hd <;> cases hd
    exact made_text _

theorem made_table (settings : Settings) (es : List Entry) : Made P (table settings es) := by
  have hcells : ∀ d ∈ Element.contents (headings settings :: (chronological es).map row),
      Made P d := by
    intro d hd
    obtain ⟨r, hr, hd⟩ := List.mem_flatMap.mp hd
    obtain ⟨cell, hcell, hcontent⟩ := List.mem_filterMap.mp hd
    rcases List.mem_cons.mp hr with rfl | hr
    · exact made_headings settings cell hcell d hcontent
    · obtain ⟨e, _, rfl⟩ := List.mem_map.mp hr
      exact made_row e cell hcell d hcontent
  exact ⟨⟨rfl, rfl⟩, fun d hd => (hcells d hd).around, fun _ d hd => (hcells d hd).toIsFill⟩

end WikiHtml.Event
