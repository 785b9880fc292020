-- Links to pages, built in the tree.
import WikiHtml.Building.Basic
import WikiHtml.Placeholder.PageLinks

namespace WikiHtml.Building

open Placeholder

/-- A link for each step of a path, with spaces between them. -/
def stepwiseLinks (path : String) : Building NodeId :=
  let absolute := PagePath.makeAbsolute (some path) none
  let links := (stepTargets [] (steps absolute.toList)).map fun (target, step) =>
    pageLink target step
  group (links.intersperse (text " "))

/-- The name of the page of a path. The link of a title leads to the page. -/
def pageName (path : String) (format : NameFormat) (linked : Bool) : Building NodeId :=
  let name := format.apply path
  if !linked then text name
  else
    match format with
    | .title => pageLink path name
    | .path | .folder => stepwiseLinks name

/-- Links, each behind a separator. A link is added before the separator in front of it. -/
def separated (separator : String) : List (Building NodeId) → Building (List NodeId)
  | [] => return []
  | link :: rest => do
    let shown ← link
    let between ← text separator
    let others ← separated separator rest
    return between :: shown :: others

/-- Links in one line, with separators between them if there is one. -/
def inLine (separator : Option String) : List (Building NodeId) → Building (List NodeId)
  | [] => return []
  | link :: rest => do
    let first ← link
    let others ← match separator with
      | some separator => separated separator rest
      | none => all rest
    return first :: others

/-- A list of pages in one line, or with an item for each. Where there are no pages it is the text
for that case, or nothing. -/
def pageList (paths : List String) (listing : Listing) : Option (Building NodeId) :=
  if paths = [] then listing.outputOnEmpty.map text
  else
    let links := paths.map fun path => pageLink path (listing.format.apply path)
    if listing.inline then some do
      let members ← inLine listing.separator links
      add (.list members)
    else some (group (links.map (wrapped (.listItem 1 false))))

end WikiHtml.Building
