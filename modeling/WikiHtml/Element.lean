-- The elements of a wiki page. An element says what it is and which elements it holds; what stands
-- for a held element is left open, so a tree in one piece and a table of nodes share the type.
import WikiHtml.PagePath

namespace WikiHtml

/-- A range of the source text: the first character, and one past the last. -/
structure Span where
  first : Nat
  last : Nat
  deriving DecidableEq, Repr

/-- Whether a range ends before it starts. -/
def Span.isBackward (s : Span) : Bool := s.last < s.first

/-- Keys with their values, in order; no key comes twice. -/
abbrev Options := List (String × String)

/-- The value of a key. -/
def Options.get? (options : Options) (key : String) : Option String :=
  options.lookup key

/-! ## What elements are made of -/

/-- The state of a task. -/
inductive TaskState where
  | open
  | important
  | closed
  deriving DecidableEq, Repr

/-- Which part of a page path is shown. -/
inductive NameFormat where
  | path
  | folder
  | title
  deriving DecidableEq, Repr

/-- The shown part of a page path. -/
def NameFormat.apply (format : NameFormat) (path : String) : String :=
  match format with
  | .path => path
  | .folder => PagePath.folder path
  | .title => PagePath.name path

/-- Which parts of the current time are shown. -/
inductive MomentFormat where
  | date
  | time
  | dateTime
  deriving DecidableEq, Repr

/-- How a list of pages is shown: the part of each path, whether the pages stand in one line and
what separates them there, what is shown if there are none, and whether the outermost page is the
one that paths are relative to. -/
structure Listing where
  format : NameFormat
  inline : Bool
  separator : Option String
  outputOnEmpty : Option String
  global : Bool
  deriving DecidableEq, Repr

/-- The listing of a tag that says nothing about it. -/
def Listing.standard : Listing := ⟨.path, false, none, none, false⟩

/-! ## Elements -/

/-- An element that may hold one element. -/
inductive Wrapper where
  | page (path : Option String)
  | heading (level : Nat)
  | paragraph (centered : Bool) (indention : Nat) (verticalSpacing : Bool)
  | listItem (level : Nat) (ordered : Bool)
  | bold
  | italic
  | underlined
  | strikethrough
  | monospace
  | small
  | color (name : String)
  | style (classes : List String)
  | htmlTag (name : String) (attributes : Option String)
  | xmlTag (space : Option String) (name : String) (options : Options)
  | linkPage (path : Option String) (anchor : Option String)
  | linkWiki (command : String)
  | linkLocalFile (path : String)
  | linkExternal (url : String)
  deriving DecidableEq, Repr

/-- An element that holds no other. -/
inductive Leaf where
  | text (text : String)
  | lineBreak
  | nowiki (text : String)
  | html (text : String)
  | anchor (name : String)
  | image (url : String) (options : Options)
  | searchInput
  | separator
  | verticalSpace
  | task (state : TaskState) (schedule : Option String) (description : Option String)
  | code (language : Option String) (text : String)
  | includePage (path : String)
  | tableOfContents
  | pageName (format : NameFormat) (linked : Bool) (global : Bool)
  | wikiVersion
  | parent (path : Option String)
  | listPages (folder : Option String) (listing : Listing)
  | moment (format : MomentFormat)
  | listParents (path : Option String) (listing : Listing)
  | listChildren (path : Option String) (listing : Listing)
  | listWantedPages (listing : Listing)
  | listUnlinkedPages (hideParents : Bool) (hideChildren : Bool) (listing : Listing)
  deriving DecidableEq, Repr

/-- A table cell. -/
structure Cell (α : Type) where
  header : Bool
  params : Option String
  content : Option α
  deriving DecidableEq, Repr

/-- A table row. -/
structure Row (α : Type) where
  params : Option String
  cells : List (Cell α)
  deriving DecidableEq, Repr

/-- An element whose held elements are values of `α`. A list groups its members, as if they stood
in its place. -/
inductive Element (α : Type) where
  | list (members : List α)
  | wrap (wrapper : Wrapper) (child : Option α)
  | table (params : Option String) (rows : List (Row α))
  | leaf (leaf : Leaf)
  deriving DecidableEq, Repr

/-- The element with the first level where it has level 0: levels count from 1. -/
def Wrapper.raised : Wrapper → Wrapper
  | .heading level => .heading (max level 1)
  | .listItem level ordered => .listItem (max level 1) ordered
  | wrapper => wrapper

/-! ## Kinds -/

/-- The name of the kind of an element that may hold one. -/
def Wrapper.kindName : Wrapper → String
  | .page _ => "page"
  | .heading _ => "heading"
  | .paragraph _ _ _ => "paragraph"
  | .listItem _ _ => "list-item"
  | .bold => "bold"
  | .italic => "italic"
  | .underlined => "underlined"
  | .strikethrough => "strikethrough"
  | .monospace => "monospace"
  | .small => "small"
  | .color _ => "color"
  | .style _ => "style"
  | .htmlTag _ _ => "html-tag"
  | .xmlTag _ _ _ => "xml-tag"
  | .linkPage _ _ => "link-page"
  | .linkWiki _ => "link-wiki"
  | .linkLocalFile _ => "link-local-file"
  | .linkExternal _ => "link-external"

/-- The name of the kind of an element that holds none. -/
def Leaf.kindName : Leaf → String
  | .text _ => "text"
  | .lineBreak => "line-break"
  | .nowiki _ => "nowiki"
  | .html _ => "html"
  | .anchor _ => "anchor"
  | .image _ _ => "image"
  | .searchInput => "search-input"
  | .separator => "separator"
  | .verticalSpace => "vertical-space"
  | .task _ _ _ => "task"
  | .code _ _ => "code"
  | .includePage _ => "include-page"
  | .tableOfContents => "table-of-contents"
  | .pageName _ _ _ => "page-name"
  | .wikiVersion => "wiki-version"
  | .parent _ => "parent"
  | .listPages _ _ => "list-pages"
  | .moment _ => "date-time"
  | .listParents _ _ => "list-parents"
  | .listChildren _ _ => "list-children"
  | .listWantedPages _ => "list-wanted-pages"
  | .listUnlinkedPages _ _ _ => "list-unlinked-pages"

/-- Whether an element that may hold one shares a line with its siblings. -/
def Wrapper.isInline : Wrapper → Bool
  | .page _ | .heading _ | .paragraph _ _ _ | .listItem _ _ => false
  | _ => true

/-- Whether an element that holds none shares a line with its siblings. A list of pages does if it
is to be shown in one line. -/
def Leaf.isInline : Leaf → Bool
  | .text _ | .lineBreak | .nowiki _ | .html _ | .anchor _ | .image _ _ | .searchInput => true
  | .pageName _ _ _ | .wikiVersion | .moment _ => true
  | .separator | .verticalSpace | .task _ _ _ | .code _ _ => false
  | .includePage _ | .tableOfContents | .parent _ => false
  | .listPages _ listing | .listParents _ listing | .listChildren _ listing => listing.inline
  | .listWantedPages listing | .listUnlinkedPages _ _ listing => listing.inline

namespace Element

variable {α β : Type}

/-- The name of the kind of an element. -/
def kindName : Element α → String
  | .list _ => "list"
  | .wrap w _ => w.kindName
  | .table _ _ => "table"
  | .leaf l => l.kindName

/-- Whether an element shares a line with its siblings, and does not start a block of its own. -/
def isInline : Element α → Bool
  | .list _ => true
  | .wrap w _ => w.isInline
  | .table _ _ => false
  | .leaf l => l.isInline

/-- Whether an element is a list. -/
def isList : Element α → Bool
  | .list _ => true
  | _ => false

/-- Whether an element is a page. -/
def isPage : Element α → Bool
  | .wrap (.page _) _ => true
  | _ => false

/-! ## Held elements -/

/-- The members of a list; any other element has none. -/
def members : Element α → List α
  | .list members => members
  | _ => []

/-- The element held by one that may hold one. -/
def child? : Element α → Option α
  | .wrap _ child => child
  | _ => none

/-- Whether an element may hold one element. -/
def isWrapper : Element α → Bool
  | .wrap _ _ => true
  | _ => false

/-- The contents of the cells of a table, row by row. -/
def contents (rows : List (Row α)) : List α :=
  rows.flatMap fun row => row.cells.filterMap (·.content)

/-- All held elements, in the order of the document. -/
def children : Element α → List α
  | .list members => members
  | .wrap _ child => child.toList
  | .table _ rows => contents rows
  | .leaf _ => []

/-- The element with every held one replaced. -/
def map (f : α → β) : Element α → Element β
  | .list members => .list (members.map f)
  | .wrap w child => .wrap w (child.map f)
  | .table params rows => .table params (rows.map fun row =>
      ⟨row.params, row.cells.map fun cell => ⟨cell.header, cell.params, cell.content.map f⟩⟩)
  | .leaf l => .leaf l

section

variable {m : Type → Type} [Monad m]

/-- The cell with its content replaced by what a computation answers for it. -/
def mapCellM (f : α → m β) (cell : Cell α) : m (Cell β) := do
  return ⟨cell.header, cell.params, ← cell.content.mapM f⟩

/-- The row with the contents of its cells replaced, one after the other. -/
def mapRowM (f : α → m β) (row : Row α) : m (Row β) := do
  return ⟨row.params, ← row.cells.mapM (mapCellM f)⟩

/-- The element with every held one replaced by what a computation answers for it; they are computed
in the order of the document. -/
def mapM (f : α → m β) : Element α → m (Element β)
  | .list members => do return .list (← members.mapM f)
  | .wrap w child => do return .wrap w (← child.mapM f)
  | .table params rows => do return .table params (← rows.mapM (mapRowM f))
  | .leaf l => pure (.leaf l)

end

end Element

end WikiHtml
