-- The changes of a tree as data, with the numbers that each of them needs to be there.
import WikiHtml.Tree

namespace WikiHtml.Tree

/-- A change of a tree. -/
inductive Edit where
  | add (element : Element NodeId) (span : Option Span)
  | addDocument (document : Document)
  | deepClone (id : NodeId)
  | setRoot (id : NodeId)
  | setChild (id : NodeId) (child : Option NodeId)
  | listSet (list : NodeId) (index : Nat) (node : NodeId)
  | listRemove (list : NodeId) (index : Nat)
  | listPush (list : NodeId) (node : NodeId)
  | listAppend (list other : NodeId)
  | setCellContent (table : NodeId) (row cell : Nat) (content : Option NodeId)

/-- What a change answers. -/
inductive Reply where
  | done
  | node (id : Option NodeId)
  | accepted (yes : Bool)
  deriving DecidableEq, Repr

/-- Whether there is a cell at a place of a table. -/
def hasCell (rows : List (Row NodeId)) (row cell : Nat) : Bool :=
  match rows[row]? with
  | some r => cell < r.cells.length
  | none => false

/-- Whether there is a node for each of the numbers. -/
def containsAll (t : Tree) (ids : List NodeId) : Bool :=
  ids.all t.contains

/-- Whether the nodes, members and cells that a change looks at are there. A node may hold itself
from the start. -/
def Edit.inRange (t : Tree) : Edit → Bool
  | .add element _ => element.children.all (· ≤ t.size)
  | .addDocument _ => true
  | .deepClone id => t.contains id
  | .setRoot id => t.contains id
  | .setChild id child =>
    t.contains id && (!(t.element id).isWrapper || t.containsAll child.toList)
  | .listSet list index node =>
    t.contains list &&
      (!(t.element list).isList || (index < (t.members list).length && t.contains node))
  | .listRemove list index =>
    t.contains list && (!(t.element list).isList || index < (t.members list).length)
  | .listPush list node => t.contains list && (!(t.element list).isList || t.contains node)
  | .listAppend list other =>
    t.contains other && ((t.members other).isEmpty || t.contains list)
  | .setCellContent table row cell content =>
    t.contains table &&
      (match t.element table with
      | .table _ rows => hasCell rows row cell && t.containsAll content.toList
      | _ => true)

/-- Makes a change. -/
def Edit.run (t : Tree) : Edit → Reply × Tree
  | .add element span => let (id, t) := t.add element span; (.node id, t)
  | .addDocument document => let (id, t) := t.addDocument document; (.node id, t)
  | .deepClone id => let (id, t) := t.deepClone id; (.node id, t)
  | .setRoot id => (.done, t.setRoot id)
  | .setChild id child => (.accepted (t.element id).isWrapper, t.setChild id child)
  | .listSet list index node => (.done, t.listSet list index node)
  | .listRemove list index => let (old, t) := t.listRemove list index; (.node old, t)
  | .listPush list node => (.done, t.listPush list node)
  | .listAppend list other => (.done, t.listAppend list other)
  | .setCellContent table row cell content => (.done, t.setCellContent table row cell content)

/-- Makes a change if all that it looks at is there. -/
def edit? (t : Tree) (e : Edit) : Option (Reply × Tree) :=
  if e.inRange t then some (e.run t) else none

end WikiHtml.Tree
