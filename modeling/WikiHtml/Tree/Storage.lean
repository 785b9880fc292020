-- The stored pages of a wiki as trees, each under its path.
import Std.Data.TreeMap.Lemmas
import WikiHtml.Tree.Query

namespace WikiHtml

namespace Tree

/-- What a page that takes the place of the root holds: what the root holds if it is a page, and
the root itself if not. -/
def content? (t : Tree) (root : NodeId) : Option NodeId :=
  match t.element root with
  | .wrap (.page _) child => child
  | _ => some root

/-- The tree as it is stored under a path. If its root is no page with that path, a new page is put
at the top; an old one stays in the table. -/
def storedAs (t : Tree) (path : String) : Tree :=
  match t.root with
  | none => t
  | some root =>
    if t.pagePath root = some path then t
    else
      let (page, t') := t.add (.wrap (.page (some path)) (t.content? root)) (t.span root)
      t'.setRoot page

end Tree

/-- The stored trees, by their paths. -/
structure TreeStore where
  trees : Std.TreeMap String Tree

namespace TreeStore

/-- The store without trees. -/
def empty : TreeStore := ⟨∅⟩

/-- Stores a tree under a path. One that is stored there gives way. -/
def insert (s : TreeStore) (path : String) (t : Tree) : TreeStore :=
  ⟨s.trees.insert path (t.storedAs path)⟩

/-- The tree that is stored under a path. -/
def get? (s : TreeStore) (path : String) : Option Tree :=
  s.trees[path]?

/-- The paths of all stored trees, ascending. -/
def paths (s : TreeStore) : List String :=
  s.trees.keys

end TreeStore

end WikiHtml
