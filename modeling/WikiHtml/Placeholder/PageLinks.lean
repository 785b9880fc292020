-- Links to pages: the name of a page with a link for each of its folders, and lists of pages.
import WikiHtml.Document.Build
import WikiHtml.Repository
import WikiHtml.Settings

namespace WikiHtml.Placeholder

open Document

/-! ## The name of a page -/

/-- The steps of a path; each of them but the last ends with the only `/` in it. -/
def steps : List Char → List (List Char)
  | [] => []
  | c :: rest =>
    match steps rest with
    | [] => [[c]]
    | step :: later => if c = '/' then [c] :: step :: later else (c :: step) :: later

/-- Each step with the path that it ends, after the path `passed`. -/
def stepTargets (passed : List Char) : List (List Char) → List (String × String)
  | [] => []
  | step :: later =>
    let target := passed ++ step
    (String.ofList target, String.ofList step) :: stepTargets target later

/-- A link for each step of a path, with spaces between them. -/
def stepwiseLinks (path : String) : Document :=
  let absolute := PagePath.makeAbsolute (some path) none
  let links := (stepTargets [] (steps absolute.toList)).map fun (target, step) =>
    pageLink target step
  group (links.intersperse (text " "))

/-- The name of the page of a path. The link of a title leads to the page. -/
def pageName (path : String) (format : NameFormat) (linked : Bool) : Document :=
  let name := format.apply path
  if !linked then text name
  else
    match format with
    | .title => pageLink path name
    | .path | .folder => stepwiseLinks name

/-! ## Lists of pages -/

/-- A list of pages in one line, or with an item for each. Where there are no pages it is the text
for that case, or nothing. -/
def pageList (paths : List String) (listing : Listing) : Option Document :=
  if paths = [] then listing.outputOnEmpty.map text
  else
    let links := paths.map fun path => pageLink path (listing.format.apply path)
    if listing.inline then
      match listing.separator with
      | some separator => some (group (links.intersperse (text separator)))
      | none => some (group links)
    else some (group (links.map (wrapped (.listItem 1 false))))

/-- The stored pages below a folder, or all of them. -/
def pagesBelow (r : Repository) (folder : Option String) : List String :=
  match folder with
  | some folder => r.paths.filter fun path => folder.toList.isPrefixOf (PagePath.folder path).toList
  | none => r.paths

/-- Whether a path names a folder. -/
def isFolder (path : String) : Bool :=
  path.toList.getLast? == some '/'

/-- The targets of links that are not stored and are no folders. -/
def wantedPages (r : Repository) : List String :=
  r.linkTargets.filter fun target => !isFolder target && !r.exists? target

/-- The page that a link leads to: that of a folder is its index page, if there is such a name. -/
def linkedPage (settings : Settings) (target : String) : String :=
  match settings.indexPageName with
  | some index => if isFolder target then target ++ index else target
  | none => target

/-- The parents that stored pages name. -/
def allParents (r : Repository) : List String :=
  r.paths.flatMap r.parents

/-- Whether a stored page names a stored page as its parent. -/
def isChild (r : Repository) (path : String) : Bool :=
  (r.parents path).any r.exists?

/-- The stored pages that nothing links to. The start page counts as linked, and so may pages that
are parents or children of others. -/
def unlinkedPages (r : Repository) (settings : Settings) (hideParents hideChildren : Bool) :
    List String :=
  let linked := r.linkTargets.map (linkedPage settings)
  let parents := if hideParents then allParents r else []
  r.paths.filter fun path =>
    !linked.contains path && path != settings.startPage && !parents.contains path
      && !(hideChildren && isChild r path)

end WikiHtml.Placeholder
