-- Questions about a tree: the page that a node belongs to, the nodes below one, and their text. The
-- nodes below one are found with a stack, or by recursion.
import WikiHtml.Tree
import WikiHtml.Document.Search

namespace WikiHtml.Tree

/-! ## The page around a node -/

/-- The first page on the way up from a node, within so many steps. The outermost page is asked for
with `global`: then only a page without a parent counts. -/
def contextWithin (t : Tree) (global : Bool) : Nat → NodeId → Option NodeId
  | 0, _ => none
  | steps + 1, id =>
    let parent := t.parent id
    if (t.element id).isPage && (!global || parent.isNone) then some id
    else
      match parent with
      | some above => t.contextWithin global steps above
      | none => none

/-- The page that a node belongs to: the nearest one around it, or the outermost one. The way up is
no longer than there are nodes. -/
def contextPage (t : Tree) (id : NodeId) (global : Bool) : Option NodeId :=
  t.contextWithin global t.size id

/-- The path of a page. -/
def pagePath (t : Tree) (id : NodeId) : Option String :=
  match t.element id with
  | .wrap (.page path) _ => path
  | _ => none

/-- A path made absolute for the folder of the context page; without a path that of the page. -/
def absolutePath (t : Tree) (path : Option String) (context : Option NodeId) : Option String :=
  Document.absolutePath path (context.map t.pagePath)

/-! ## The nodes below a node -/

/-- The nodes that match, from a node downwards and at most so deep, in the order of the document.
Below a match the search goes on only if `into` says so. -/
def matchesWithin (t : Tree) (p : Element NodeId → Bool) (into : Bool) : Nat → NodeId → List NodeId
  | 0, _ => []
  | depth + 1, id =>
    let below := (t.element id).children.flatMap (t.matchesWithin p into depth)
    if p (t.element id) then id :: (if into then below else []) else below

/-- The nodes that match, from a node downwards, in the order of the document. -/
def nodesMatching (t : Tree) (id : NodeId) (p : Element NodeId → Bool) (into : Bool) :
    List NodeId :=
  t.matchesWithin p into t.size id

/-! ## Searching with a stack -/

/-- A search: the nodes found so far, and those that are still to be looked at, the next one last. -/
structure Traversal where
  found : Array NodeId
  pending : Array NodeId

/-- Looks at the next node, which leaves the stack. The nodes that it holds come on the stack with the
first one on top, unless it matches and the search does not go on below a match. -/
def Traversal.visit (t : Tree) (p : Element NodeId → Bool) (into : Bool) (s : Traversal)
    (id : NodeId) : Traversal :=
  let element := t.element id
  let others := s.pending.pop
  let deeper := others ++ element.children.reverse
  if p element then ⟨s.found.push id, if into then deeper else others⟩ else ⟨s.found, deeper⟩

/-- Looks at the next node, or ends the search if there is none. -/
def Traversal.turn (t : Tree) (p : Element NodeId → Bool) (into : Bool) (s : Traversal) :
    Option (Traversal ⊕ Array NodeId) :=
  match s.pending.back? with
  | some id => some (.inl (s.visit t p into id))
  | none => some (.inr s.found)

/-- Searches until no node is left on the stack. Below a node that holds itself there may be no end, and
then there is no result. -/
def Traversal.run (t : Tree) (p : Element NodeId → Bool) (into : Bool) (s : Traversal) :
    Option (Array NodeId) :=
  repeatM (turn t p into) s

/-- The nodes that match, from a node downwards, as a search finds them. -/
def traverse? (t : Tree) (id : NodeId) (p : Element NodeId → Bool) (into : Bool) :
    Option (List NodeId) :=
  (Traversal.run t p into ⟨#[], #[id]⟩).map Array.toList

/-- The outermost nodes that match, from a node downwards. Below a node that holds itself, at whatever
depth, nothing is found. -/
def outermost (t : Tree) (id : NodeId) (p : Element NodeId → Bool) : List NodeId :=
  if (t.document? id).isSome then (t.traverse? id p false).getD [] else []

/-! ## Text -/

/-- The text of a text element. -/
def textOf? : Element NodeId → Option String
  | .leaf (.text text) => some text
  | _ => none

/-- The texts below a node, joined. -/
def stringContent (t : Tree) (id : NodeId) : String :=
  let texts := (t.traverse? id (fun e => (textOf? e).isSome) true).getD []
  String.join (texts.filterMap fun id => textOf? (t.element id))

end WikiHtml.Tree
