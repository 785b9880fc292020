-- Trees read from JSON, and the two ways in which that fails.
import WikiHtml.Document.Decode
import WikiHtml.Tree

namespace WikiHtml.Tree

/-- Why there is no tree: the JSON does not describe a document, or a span ends before it starts. -/
inductive DecodeError where
  | json
  | span (bad : Span)
  deriving DecidableEq, Repr

/-- The text of a failure, for a span that is at fault. -/
def spanMessage (bad : Span) : String :=
  "invalid span " ++ toString bad.first ++ ".." ++ toString bad.last

mutual

/-- Adds a document as it was read: its own span is looked at first, then the held ones are added, in
their order, and then the one at the top. The first span that ends before it starts is a failure. -/
def build (t : Tree) : Document → Except DecodeError (NodeId × Tree)
  | .node element span =>
    match span.filter Span.isBackward with
    | some bad => throw (.span bad)
    | none => do
      let (element, t) ← t.buildHeld element
      return t.add element span

/-- Adds the documents that an element holds, and names them in it. -/
def buildHeld (t : Tree) : Element Document → Except DecodeError (Element NodeId × Tree)
  | .list members => do
    let (ids, t) ← t.buildMembers members
    return (.list ids, t)
  | .wrap wrapper child => do
    let (id, t) ← t.buildChild child
    return (.wrap wrapper.raised id, t)
  | .table params rows => do
    let (rows, t) ← t.buildRows rows
    return (.table params rows, t)
  | .leaf leaf => return (.leaf leaf, t)

/-- Adds the members of a list. -/
def buildMembers (t : Tree) : List Document → Except DecodeError (List NodeId × Tree)
  | [] => return ([], t)
  | document :: rest => do
    let (id, t) ← t.build document
    let (ids, t) ← t.buildMembers rest
    return (id :: ids, t)

/-- Adds the document that an element may hold. -/
def buildChild (t : Tree) : Option Document → Except DecodeError (Option NodeId × Tree)
  | none => return (none, t)
  | some document => do
    let (id, t) ← t.build document
    return (some id, t)

/-- Adds the contents of the rows of a table. -/
def buildRows (t : Tree) : List (Row Document) → Except DecodeError (List (Row NodeId) × Tree)
  | [] => return ([], t)
  | ⟨params, cells⟩ :: rest => do
    let (cells, t) ← t.buildCells cells
    let (rows, t) ← t.buildRows rest
    return (⟨params, cells⟩ :: rows, t)

/-- Adds the contents of the cells of a row. -/
def buildCells (t : Tree) : List (Cell Document) → Except DecodeError (List (Cell NodeId) × Tree)
  | [] => return ([], t)
  | ⟨header, params, content⟩ :: rest => do
    let (id, t) ← t.buildChild content
    let (cells, t) ← t.buildCells rest
    return (⟨header, params, id⟩ :: cells, t)

end

/-- The tree of a document as it was read, which is at its top. -/
def ofDocument? (document : Document) : Except DecodeError Tree := do
  let (id, t) ← empty.build document
  return t.setRoot id

/-- The tree that a value describes. -/
def ofJson (json : Json) : Except DecodeError Tree :=
  match Document.ofJson? json with
  | some document => ofDocument? document
  | none => .error .json

/-- The tree that a text describes. -/
def parse (text : String) : Except DecodeError Tree :=
  match Document.parse? text with
  | some document => ofDocument? document
  | none => .error .json

end WikiHtml.Tree
