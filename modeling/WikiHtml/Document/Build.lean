-- Building documents that were not read from a source, so that they have no spans; and the tags of
-- a document with what they say.
import WikiHtml.Document.Search

namespace WikiHtml.Document

/-! ## Elements without a span -/

/-- An element that holds none. -/
def ofLeaf (leaf : Leaf) : Document :=
  .node (.leaf leaf) none

/-- A text. -/
def text (s : String) : Document :=
  ofLeaf (.text s)

/-- A list of documents. -/
def group (members : List Document) : Document :=
  .node (.list members) none

/-- An element that holds a document. -/
def wrapped (wrapper : Wrapper) (child : Document) : Document :=
  .node (.wrap wrapper (some child)) none

/-- A paragraph of documents. -/
def paragraph (members : List Document) : Document :=
  wrapped (.paragraph false 0 false) (group members)

/-- A paragraph of a text. -/
def textParagraph (s : String) : Document :=
  paragraph [text s]

/-- A link to a page. -/
def pageLink (path : String) (shown : String) : Document :=
  wrapped (.linkPage (some path) none) (text shown)

/-! ## Tags -/

/-- A tag of the source that has a meaning of its own. -/
structure Tag where
  space : Option String
  name : String
  options : Options
  child : Option Document

/-- The tag that an element is. -/
def tag? : Element Document → Option Tag
  | .wrap (.xmlTag space name options) child => some ⟨space, name, options, child⟩
  | _ => none

/-- The text in a tag. -/
def Tag.text (tag : Tag) : String :=
  match tag.child with
  | some content => content.textContent
  | none => ""

end WikiHtml.Document
