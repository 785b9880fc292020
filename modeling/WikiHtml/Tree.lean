-- A page as a table of nodes. An element names the nodes that it holds by their numbers, and each
-- node knows the node that holds it; the content of a table cell is held by the table. Nodes are
-- only ever added: one that is taken out of its place stays in the table without a parent.
import WikiHtml.Document

namespace WikiHtml

/-- The number of a node. -/
abbrev NodeId := Nat

/-- An element, the range of the source text that it was read from, and the node that holds it. -/
structure Node where
  element : Element NodeId
  span : Option Span
  parent : Option NodeId
  deriving DecidableEq, Repr

/-- The nodes in the order in which they were added, and the one at the top. -/
structure Tree where
  nodes : Array Node
  root : Option NodeId
  deriving DecidableEq, Repr

namespace Tree

/-- The tree without nodes. -/
def empty : Tree := ⟨#[], none⟩

/-! ## Looking at nodes -/

/-- The number of nodes. -/
def size (t : Tree) : Nat := t.nodes.size

/-- Whether there is a node with the number. -/
def contains (t : Tree) (id : NodeId) : Bool := id < t.size

/-- The element of a node; where there is no node there is an empty list. -/
def element (t : Tree) (id : NodeId) : Element NodeId :=
  match t.nodes[id]? with
  | some node => node.element
  | none => .list []

/-- The range of the source text of a node. -/
def span (t : Tree) (id : NodeId) : Option Span :=
  t.nodes[id]?.bind (·.span)

/-- The node that holds a node. -/
def parent (t : Tree) (id : NodeId) : Option NodeId :=
  t.nodes[id]?.bind (·.parent)

/-- The members of a list; any other node has none. -/
def members (t : Tree) (id : NodeId) : List NodeId :=
  (t.element id).members

/-- The node held by one that may hold one. -/
def child? (t : Tree) (id : NodeId) : Option NodeId :=
  (t.element id).child?

/-! ## Changing nodes -/

/-- Sets the parent of a node, and nothing else. -/
def setParent (t : Tree) (id : NodeId) (parent : Option NodeId) : Tree :=
  { t with nodes := t.nodes.modify id fun node => { node with parent := parent } }

/-- Sets the element of a node, and nothing else. -/
def setElement (t : Tree) (id : NodeId) (element : Element NodeId) : Tree :=
  { t with nodes := t.nodes.modify id fun node => { node with element := element } }

/-- Makes a node the parent of others. -/
def adoptAll (t : Tree) (parent : NodeId) (children : List NodeId) : Tree :=
  children.foldl (fun t child => t.setParent child (some parent)) t

/-- Takes the parent from a node that another one has replaced. -/
def release (t : Tree) (old new : Option NodeId) : Tree :=
  match old with
  | some id => if old = new then t else t.setParent id none
  | none => t

/-- Makes a node the parent of the one that it holds now, if it holds one, and takes the parent
from the one that it held before. -/
def exchange (t : Tree) (holder : NodeId) (old new : Option NodeId) : Tree :=
  let t := t.release old new
  match new with
  | some id => t.setParent id (some holder)
  | none => t

/-- Adds a node, which becomes the parent of all nodes that its element holds. -/
def add (t : Tree) (element : Element NodeId) (span : Option Span) : NodeId × Tree :=
  let id := t.size
  let t := { t with nodes := t.nodes.push ⟨element, span, none⟩ }
  (id, t.adoptAll id element.children)

/-- Adds a text. -/
def addText (t : Tree) (text : String) : NodeId × Tree :=
  t.add (.leaf (.text text)) none

/-- Adds an empty list. -/
def addEmpty (t : Tree) : NodeId × Tree :=
  t.add (.list []) none

/-- Puts a node at the top, and takes its parent from it. -/
def setRoot (t : Tree) (id : NodeId) : Tree :=
  { t.setParent id none with root := some id }

/-- Replaces the node held by one that may hold one; of any other node nothing changes. -/
def setChild (t : Tree) (id : NodeId) (child : Option NodeId) : Tree :=
  match t.element id with
  | .wrap wrapper old => (t.setElement id (.wrap wrapper child)).exchange id old child
  | _ => t

/-- Replaces a member of a list. -/
def listSet (t : Tree) (list : NodeId) (index : Nat) (node : NodeId) : Tree :=
  match t.element list with
  | .list members =>
    (t.setElement list (.list (members.set index node))).exchange list members[index]? (some node)
  | _ => t

/-- Takes a member out of a list. -/
def listRemove (t : Tree) (list : NodeId) (index : Nat) : Option NodeId × Tree :=
  match t.element list with
  | .list members =>
    match members[index]? with
    | some old =>
      (some old, (t.setElement list (.list (members.eraseIdx index))).setParent old none)
    | none => (none, t)
  | _ => (none, t)

/-- Adds a node at the end of a list. -/
def listPush (t : Tree) (list : NodeId) (node : NodeId) : Tree :=
  match t.element list with
  | .list members => (t.setElement list (.list (members ++ [node]))).setParent node (some list)
  | _ => t

/-- Moves all members of one list to the end of another. If that is no list, the members leave
theirs all the same. -/
def listAppend (t : Tree) (list other : NodeId) : Tree :=
  match t.element other with
  | .list members =>
    members.foldl (fun t node => t.listPush list node) (t.setElement other (.list []))
  | _ => t

/-- The content of a table cell. -/
def cellContent (rows : List (Row NodeId)) (row cell : Nat) : Option NodeId := do
  (← (← rows[row]?).cells[cell]?).content

/-- The rows of a table with the content of one cell replaced. -/
def setContent (rows : List (Row NodeId)) (row cell : Nat) (content : Option NodeId) :
    List (Row NodeId) :=
  rows.modify row fun r => { r with cells := r.cells.modify cell ({ · with content := content }) }

/-- Replaces the content of a table cell; of any other node nothing changes. -/
def setCellContent (t : Tree) (table : NodeId) (row cell : Nat) (content : Option NodeId) : Tree :=
  match t.element table with
  | .table params rows =>
    (t.setElement table (.table params (setContent rows row cell content))).exchange table
      (cellContent rows row cell) content
  | _ => t

/-! ## Documents in the tree -/

/-- The document below a node, unless it is nested deeper than the bound. -/
def documentWithin (t : Tree) : Nat → NodeId → Option Document
  | 0, _ => none
  | bound + 1, id => do
    let node ← t.nodes[id]?
    return .node (← node.element.mapM (t.documentWithin bound)) node.span

/-- The document below a node. Where no node holds itself, none is nested deeper than there are
nodes. -/
def document? (t : Tree) (id : NodeId) : Option Document :=
  t.documentWithin t.size id

/-- The document at the root, or an empty list if there is none. -/
def rootDocument (t : Tree) : Document :=
  (t.root.bind t.document?).getD (.node (.list []) none)

mutual

/-- Adds a document: the held ones first, in their order, and then the one at the top. -/
def addDocument (t : Tree) : Document → NodeId × Tree
  | .node element span =>
    let (element, t) := t.addHeld element
    t.add element span

/-- Adds the documents that an element holds, and names them in it. -/
def addHeld (t : Tree) : Element Document → Element NodeId × Tree
  | .list members =>
    let (ids, t) := t.addMembers members
    (.list ids, t)
  | .wrap wrapper child =>
    let (id, t) := t.addChild child
    (.wrap wrapper id, t)
  | .table params rows =>
    let (rows, t) := t.addRows rows
    (.table params rows, t)
  | .leaf leaf => (.leaf leaf, t)

/-- Adds the members of a list. -/
def addMembers (t : Tree) : List Document → List NodeId × Tree
  | [] => ([], t)
  | document :: rest =>
    let (id, t) := t.addDocument document
    let (ids, t) := t.addMembers rest
    (id :: ids, t)

/-- Adds the document that an element may hold. -/
def addChild (t : Tree) : Option Document → Option NodeId × Tree
  | none => (none, t)
  | some document =>
    let (id, t) := t.addDocument document
    (some id, t)

/-- Adds the contents of the rows of a table. -/
def addRows (t : Tree) : List (Row Document) → List (Row NodeId) × Tree
  | [] => ([], t)
  | ⟨params, cells⟩ :: rest =>
    let (cells, t) := t.addCells cells
    let (rows, t) := t.addRows rest
    (⟨params, cells⟩ :: rows, t)

/-- Adds the contents of the cells of a row. -/
def addCells (t : Tree) : List (Cell Document) → List (Cell NodeId) × Tree
  | [] => ([], t)
  | ⟨header, params, content⟩ :: rest =>
    let (id, t) := t.addChild content
    let (cells, t) := t.addCells rest
    (⟨header, params, id⟩ :: cells, t)

end

/-- The tree of a document, which is at its top. -/
def ofDocument (document : Document) : Tree :=
  let (id, t) := empty.addDocument document
  t.setRoot id

/-! ## Copies -/

/-- Adds a copy of a node, first of the nodes that it holds and then of the node itself. The nodes are
looked up in `source`, which may be the tree that grows; none may be nested deeper than the bound. -/
def copyWithin (source : Tree → Tree) : Nat → NodeId → StateT Tree Option NodeId
  | 0, _ => failure
  | bound + 1, id => do
    let node ← (source (← get)).nodes[id]?
    let element ← node.element.mapM (copyWithin source bound)
    modifyGet fun t => t.add element ((source t).span id)

/-- Adds a copy of what is below a node. Where no node holds itself, none is nested deeper than there
are nodes. -/
def deepClone (t : Tree) (id : NodeId) : NodeId × Tree :=
  ((copyWithin (fun t => t) t.size id).run t).getD (id, t)

/-- Adds a copy of what is below a node of another tree. -/
def copyFrom (t other : Tree) (id : NodeId) : NodeId × Tree :=
  ((copyWithin (fun _ => other) other.size id).run t).getD t.addEmpty

end Tree

end WikiHtml
