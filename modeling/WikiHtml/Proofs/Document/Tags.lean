-- Tags of a document changed or taken out. The outermost tags are changed where they stand, and one
-- that is taken out leaves nothing: a list has one member less, and any other holder holds nothing.
import Mathlib.Data.List.Basic
import WikiHtml.Proofs.Document.Parts

namespace WikiHtml

/-! ## Held elements that are taken out -/

namespace Element

variable {α β : Type}

/-- The element with every held one replaced or taken out. -/
def filterMap (f : α → Option β) : Element α → Element β
  | .list members => .list (members.filterMap f)
  | .wrap w child => .wrap w (child.bind f)
  | .table params rows => .table params (rows.map fun row =>
      ⟨row.params, row.cells.map fun cell => ⟨cell.header, cell.params, cell.content.bind f⟩⟩)
  | .leaf l => .leaf l

theorem rowContents_filterMap (f : α → Option β) (cells : List (Cell α)) :
    rowContents (cells.map fun cell => ⟨cell.header, cell.params, cell.content.bind f⟩) =
      (rowContents cells).filterMap f := by
  rw [rowContents, rowContents, List.filterMap_map, List.filterMap_filterMap]
  rfl

theorem children_filterMap (f : α → Option β) (e : Element α) :
    (e.filterMap f).children = e.children.filterMap f := by
  rcases e with members | ⟨w, _ | child⟩ | ⟨params, rows⟩ | l
  · rfl
  · rfl
  · cases h : f child <;> simp [filterMap, children, h]
  · induction rows with
    | nil => rfl
    | cons row rest ih =>
      have hrest : contents _ = (contents rest).filterMap f := ih
      simp only [filterMap, children, List.map_cons, contents_cons, rowContents_filterMap,
        List.filterMap_append, hrest]
  · rfl

end Element

namespace Document

/-! ## Changing the outermost tags -/

/-- The element that a tag is. -/
def Tag.element (tag : Tag) : Element Document :=
  .wrap (.xmlTag tag.space tag.name tag.options) tag.child

mutual

/-- The document with every outermost tag changed, or taken out where `edit` gives none. -/
def editTags (edit : Tag → Option Tag) : Document → Option Document
  | .node element span =>
    match tag? element with
    | some tag => (edit tag).map fun tag => .node tag.element span
    | none => some (.node (editHeld edit element) span)

/-- The element with the outermost tags changed in all that it holds. -/
def editHeld (edit : Tag → Option Tag) : Element Document → Element Document
  | .list members => .list (editMembers edit members)
  | .wrap wrapper child => .wrap wrapper (editChild edit child)
  | .table params rows => .table params (editRows edit rows)
  | .leaf leaf => .leaf leaf

/-- The members of a list with their outermost tags changed. -/
def editMembers (edit : Tag → Option Tag) : List Document → List Document
  | [] => []
  | document :: rest => (editTags edit document).toList ++ editMembers edit rest

/-- What an element may hold, with the outermost tags changed. -/
def editChild (edit : Tag → Option Tag) : Option Document → Option Document
  | none => none
  | some document => editTags edit document

/-- The rows of a table with their outermost tags changed. -/
def editRows (edit : Tag → Option Tag) : List (Row Document) → List (Row Document)
  | [] => []
  | ⟨params, cells⟩ :: rest => ⟨params, editCells edit cells⟩ :: editRows edit rest

/-- The cells of a row with their outermost tags changed. -/
def editCells (edit : Tag → Option Tag) : List (Cell Document) → List (Cell Document)
  | [] => []
  | ⟨header, params, content⟩ :: rest =>
    ⟨header, params, editChild edit content⟩ :: editCells edit rest

end

section

variable (edit : Tag → Option Tag)

theorem editChild_eq (child : Option Document) :
    editChild edit child = child.bind (editTags edit) := by
  cases child <;> rfl

theorem editMembers_eq (members : List Document) :
    editMembers edit members = members.filterMap (editTags edit) := by
  induction members with
  | nil => rfl
  | cons d rest ih =>
    rw [editMembers, ih, List.filterMap_cons]
    cases editTags edit d <;> rfl

theorem editCells_eq (cells : List (Cell Document)) :
    editCells edit cells =
      cells.map fun cell => ⟨cell.header, cell.params, cell.content.bind (editTags edit)⟩ := by
  induction cells with
  | nil => rfl
  | cons cell rest ih => rw [editCells, ih, editChild_eq, List.map_cons]

theorem editRows_eq (rows : List (Row Document)) :
    editRows edit rows = rows.map fun row => ⟨row.params, editCells edit row.cells⟩ := by
  induction rows with
  | nil => rfl
  | cons row rest ih => rw [editRows, ih, List.map_cons]

theorem editHeld_eq (e : Element Document) : editHeld edit e = e.filterMap (editTags edit) := by
  cases e with
  | list members => rw [editHeld, editMembers_eq, Element.filterMap]
  | wrap w child => rw [editHeld, editChild_eq, Element.filterMap]
  | table params rows => simp only [editHeld, editRows_eq, editCells_eq, Element.filterMap]
  | leaf l => rw [editHeld, Element.filterMap]

end

/-! ## The tags that are left -/

/-- The outermost tags of a document are its tag, if it is one, and else those of what it holds. -/
theorem outermost_tags_node (e : Element Document) (span : Option Span) :
    (Document.node e span).outermost tag? =
      match tag? e with
      | some tag => [tag]
      | none => e.children.flatMap (outermost tag?) := by
  rw [outermost, search_node, element]
  cases tag? e with
  | none =>
    simp only [List.nil_append, Option.toList_some, List.flatMap_cons, List.flatMap_nil,
      List.append_nil]
    rfl
  | some tag => rfl

theorem tag?_filterMap {e : Element Document} (h : tag? e = none)
    (f : Document → Option Document) : tag? (e.filterMap f) = none := by
  rcases e with members | ⟨w, child⟩ | ⟨params, rows⟩ | l
  · rfl
  · cases w with
    | xmlTag space name options => cases h
    | _ => rfl
  · rfl
  · rfl

/-- Of the outermost tags those are left that `edit` gives. -/
theorem outermost_editTags (edit : Tag → Option Tag) (d : Document) :
    (editTags edit d).toList.flatMap (outermost tag?) = (d.outermost tag?).filterMap edit := by
  induction d using induct with
  | node e span ih =>
    rw [editTags, outermost_tags_node]
    cases htag : tag? e with
    | some tag =>
      cases hedit : edit tag with
      | none => simp [hedit]
      | some changed =>
        have hchanged : tag? changed.element = some changed := rfl
        simp [hedit, outermost_tags_node, hchanged]
    | none =>
      have hnone : tag? (e.filterMap (editTags edit)) = none := tag?_filterMap htag _
      simp only [Option.toList_some, List.flatMap_cons, List.flatMap_nil, List.append_nil,
        editHeld_eq, outermost_tags_node, hnone, Element.children_filterMap]
      rw [List.filterMap_eq_flatMap_toList, List.flatMap_assoc, List.filterMap_flatMap]
      exact List.flatMap_congr ih

end Document

end WikiHtml
