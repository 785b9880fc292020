-- The order of page paths: by code points where each path stands once, and without regard to case
-- where they are shown.
import WikiHtml.Unicode.Class

namespace WikiHtml.PageOrder

/-- Whether a path stands before another: the first code point that differs is smaller. -/
def before (a b : String) : Bool :=
  decide (a.toList < b.toList)

/-- Puts a path into its place among paths that ascend; one that is there already stays alone. -/
def insert (path : String) : List String → List String
  | [] => [path]
  | first :: rest =>
    if path = first then first :: rest
    else if before path first then path :: first :: rest
    else first :: insert path rest

/-- The paths in ascending order, each of them once. -/
def ascending (paths : List String) : List String :=
  paths.foldl (fun sorted path => insert path sorted) []

/-- The paths in the order in which they are shown: by their lower case, and otherwise as before. -/
def shown (paths : List String) : List String :=
  let keyed := paths.map fun path => (Unicode.lowercase path, path)
  (keyed.mergeSort fun a b => !before b.1 a.1).map (·.2)

end WikiHtml.PageOrder
