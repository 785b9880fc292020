-- The stored pages of a wiki, each under its path, and the links between them.
import WikiHtml.Document.Search

namespace WikiHtml

/-- The stored pages, in ascending order of their paths. -/
structure Repository where
  pages : List (String × Document)

namespace Repository

/-- The repository without pages. -/
def empty : Repository := ⟨[]⟩

/-- The document with a page of the given path at its top: a page there takes the path, and
anything else becomes the content of a new page. -/
def rooted (path : String) : Document → Document
  | .node (.wrap (.page old) child) span =>
    if old = some path then .node (.wrap (.page old) child) span
    else .node (.wrap (.page (some path)) child) span
  | .node element span => .node (.wrap (.page (some path)) (some (.node element span))) span

/-- Puts a page into its place; a page that is stored under the path gives way. -/
def put (path : String) (document : Document) :
    List (String × Document) → List (String × Document)
  | [] => [(path, document)]
  | (first, page) :: rest =>
    if path = first then (path, document) :: rest
    else if PageOrder.before path first then (path, document) :: (first, page) :: rest
    else (first, page) :: put path document rest

/-- Stores a page under a path. -/
def insert (r : Repository) (path : String) (document : Document) : Repository :=
  ⟨put path (rooted path document) r.pages⟩

/-- The page that is stored under a path. -/
def get? (r : Repository) (path : String) : Option Document :=
  r.pages.lookup path

/-- Whether a page is stored under a path. -/
def exists? (r : Repository) (path : String) : Bool :=
  (r.get? path).isSome

/-- The number of stored pages. -/
def size (r : Repository) : Nat := r.pages.length

/-- The paths of all stored pages, ascending. -/
def paths (r : Repository) : List String := r.pages.map (·.1)

/-! ## Links between pages -/

/-- The pages that a stored page names as its parents; they need not be stored. -/
def parents (r : Repository) (path : String) : List String :=
  match r.get? path with
  | some document => document.parentPaths
  | none => []

/-- The stored pages that name a page as a parent. -/
def children (r : Repository) (path : String) : List String :=
  r.paths.filter fun child => (r.parents child).contains path

/-- The targets of all page links of stored pages. -/
def linkTargets (r : Repository) : List String :=
  PageOrder.ascending (r.pages.flatMap fun page => page.2.linkPaths)

end Repository

end WikiHtml
