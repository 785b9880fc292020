-- Building in the table of nodes: nodes are added one after another, each behind those that it holds,
-- or with all that is below them as copies of nodes that are there.
import WikiHtml.Tree.Query

namespace WikiHtml

/-- Something that is built in a tree, and an answer that names its nodes. -/
abbrev Building := StateM Tree

namespace Building

/-! ## Nodes -/

/-- Adds a node without a span, which comes to hold the nodes that its element names. -/
def add (e : Element NodeId) : Building NodeId :=
  modifyGet fun t => t.add e none

/-- Builds what an element holds, in the order of the document, and then adds the node itself. -/
def node (e : Element (Building NodeId)) : Building NodeId := do
  let held ← e.mapM id
  add held

/-- Builds one after another. -/
def all (parts : List (Building NodeId)) : Building (List NodeId) :=
  parts.mapM id

/-- Adds a copy of what is below a node. -/
def copy (id : NodeId) : Building NodeId :=
  modifyGet fun t => t.deepClone id

/-- Adds a copy of what is below a node of another tree. -/
def copyFrom (other : Tree) (id : NodeId) : Building NodeId :=
  modifyGet fun t => t.copyFrom other id

/-! ## Elements -/

/-- An element that holds none. -/
def ofLeaf (leaf : Leaf) : Building NodeId :=
  node (.leaf leaf)

/-- A text. -/
def text (s : String) : Building NodeId :=
  ofLeaf (.text s)

/-- A list. -/
def group (members : List (Building NodeId)) : Building NodeId :=
  node (.list members)

/-- An element around another one. -/
def wrapped (wrapper : Wrapper) (child : Building NodeId) : Building NodeId :=
  node (.wrap wrapper (some child))

/-- A paragraph. -/
def paragraph (members : List (Building NodeId)) : Building NodeId :=
  wrapped (.paragraph false 0 false) (group members)

/-- A paragraph of a text. -/
def textParagraph (s : String) : Building NodeId :=
  paragraph [text s]

/-- A link to a page. -/
def pageLink (path : String) (shown : String) : Building NodeId :=
  wrapped (.linkPage (some path) none) (text shown)

end Building

end WikiHtml
