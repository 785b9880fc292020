-- The table of events, built in the tree.
import WikiHtml.Building.Basic
import WikiHtml.Event.Table

namespace WikiHtml.Building

open Event

/-- A heading of the table. -/
def heading (settings : Settings) (key : String) (params : Option String) :
    Cell (Building NodeId) :=
  ⟨true, params, some (text (settings.message key))⟩

/-- The row of headings. -/
def headings (settings : Settings) : Row (Building NodeId) :=
  ⟨none, [
    heading settings "TerminTransformer.table.date" none,
    heading settings "TerminTransformer.table.name" none,
    heading settings "TerminTransformer.table.age" (some "right")]⟩

/-- The cell of an age. -/
def ageCell : Option Int → Cell (Building NodeId)
  | some age => ⟨false, some "right", some (text (toString age))⟩
  | none => ⟨false, none, none⟩

/-- The row of an entry. -/
def row (e : Entry) : Row (Building NodeId) :=
  let name := e.event.description.getD (PagePath.name e.event.page)
  ⟨e.tense.map Tense.cssName, [
    ⟨false, e.shown.year.map fun _ => "right", some (text e.shown.shown)⟩,
    ⟨false, none, some (pageLink e.event.page name)⟩,
    ageCell e.age]⟩

/-- The table of entries. -/
def eventTable (settings : Settings) (es : List Entry) : Building NodeId :=
  node (.table (some "geburtstagsliste") (headings settings :: (chronological es).map row))

end WikiHtml.Building
