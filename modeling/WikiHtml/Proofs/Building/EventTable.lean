-- The table of events that is built is the one that is shown, cell by cell.
import WikiHtml.Building.EventTable
import WikiHtml.Proofs.Building.Basic

namespace WikiHtml

namespace Element

variable {α β : Type} {R : α → β → Prop}

/-- Two cells are alike but for their contents, and these are related. -/
structure CellsAlike (R : α → β → Prop) (cell : Cell α) (cell' : Cell β) : Prop where
  header : cell.header = cell'.header
  params : cell.params = cell'.params
  content : Option.Rel R cell.content cell'.content

/-- Two rows are alike but for the contents of their cells, and these are related. -/
structure RowsAlike (R : α → β → Prop) (row : Row α) (row' : Row β) : Prop where
  params : row.params = row'.params
  cells : List.Forall₂ (CellsAlike R) row.cells row'.cells

theorem refillCells_of_alike {cells : List (Cell α)} {cells' : List (Cell β)}
    (h : List.Forall₂ (CellsAlike R) cells cells') (more : List β) :
    refillCells cells (rowContents cells' ++ more) = cells' ∧
      List.Forall₂ R (rowContents cells) (rowContents cells') := by
  induction h with
  | nil => exact ⟨rfl, .nil⟩
  | @cons cell cell' cells cells' hcell _ ih =>
    obtain ⟨header, params, content⟩ := cell
    obtain ⟨header', params', content'⟩ := cell'
    obtain ⟨rfl, rfl, hcontent⟩ := hcell
    obtain ⟨hrest, hheld⟩ := ih
    cases hcontent with
    | none => exact ⟨congrArg (_ :: ·) hrest, hheld⟩
    | some hx => exact ⟨congrArg (_ :: ·) hrest, .cons hx hheld⟩

theorem refillRows_of_alike {rows : List (Row α)} {rows' : List (Row β)}
    (h : List.Forall₂ (RowsAlike R) rows rows') :
    refillRows rows (contents rows') = rows' ∧ List.Forall₂ R (contents rows) (contents rows') := by
  induction h with
  | nil => exact ⟨rfl, .nil⟩
  | @cons row row' rows rows' hrow _ ih =>
    obtain ⟨params, cells⟩ := row
    obtain ⟨params', cells'⟩ := row'
    obtain ⟨rfl, hcells⟩ := hrow
    obtain ⟨hrefill, hheld⟩ := refillCells_of_alike hcells (contents rows')
    rw [contents_cons, contents_cons, refillRows, hrefill, hheld.length_eq, List.drop_left, ih.1]
    exact ⟨rfl, List.rel_append hheld ih.2⟩

end Element

namespace Building

open Element

variable {t₀ : Tree}

theorem makes_table (params : Option String) {rows : List (Row (Building NodeId))}
    {rows' : List (Row Document)} (h : List.Forall₂ (RowsAlike (Makes t₀)) rows rows') :
    Makes t₀ (node (.table params rows)) (.node (.table params rows') none) := by
  obtain ⟨hrefill, hheld⟩ := refillRows_of_alike h
  have hmade := makes_node (e := .table params rows) hheld
  rwa [refill, hrefill] at hmade

theorem alike_heading (settings : Settings) (key : String) (params : Option String) :
    CellsAlike (Makes t₀) (heading settings key params) (Event.heading settings key params) :=
  ⟨rfl, rfl, .some (makes_text _)⟩

theorem alike_row (e : Event.Entry) : RowsAlike (Makes t₀) (row e) (Event.row e) := by
  have hage : CellsAlike (Makes t₀) (ageCell e.age) (Event.ageCell e.age) := by
    cases e.age with
    | none => exact ⟨rfl, rfl, .none⟩
    | some age => exact ⟨rfl, rfl, .some (makes_text _)⟩
  exact ⟨rfl, .cons ⟨rfl, rfl, .some (makes_text _)⟩
    (.cons ⟨rfl, rfl, .some (makes_pageLink _ _)⟩ (.cons hage .nil))⟩

/-- The table of events is built. -/
theorem makes_eventTable (settings : Settings) (es : List Event.Entry) :
    Makes t₀ (eventTable settings es) (Event.table settings es) := by
  have hheadings : RowsAlike (Makes t₀) (headings settings) (Event.headings settings) :=
    ⟨rfl, .cons (alike_heading _ _ _) (.cons (alike_heading _ _ _) (.cons (alike_heading _ _ _) .nil))⟩
  refine makes_table _ (.cons hheadings ?_)
  rw [List.forall₂_map_left_iff, List.forall₂_map_right_iff, List.forall₂_same]
  exact fun e _ => alike_row e

end Building

end WikiHtml
