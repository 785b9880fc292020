-- The table of contents of a page, built in the tree. What a heading holds is copied, and stays in
-- its place.
import WikiHtml.Building.Basic
import WikiHtml.Placeholder.Contents

namespace WikiHtml.Building

open Placeholder

/-- Whether an element is a heading. -/
def isHeading : Element NodeId → Bool
  | .wrap (.heading _) _ => true
  | _ => false

/-- The line of a heading with the numbers of it: a link to its text, with a copy of what it holds. -/
def line (level : Nat) (content : Option NodeId) (shown : String) (numbers : List Nat) :
    Building NodeId :=
  let label := group (text (numbering numbers level) :: (content.map copy).toList)
  wrapped (.paragraph false level false)
    (wrapped (.linkPage none (some (Text.anchor shown))) label)

/-- The lines of headings, where `numbers` holds the numbers of the last heading before them. -/
def lines (t : Tree) (numbers : List Nat) : List NodeId → List (Building NodeId)
  | [] => []
  | id :: rest =>
    match t.element id with
    | .wrap (.heading level) content =>
      if 1 ≤ level && level ≤ deepestLevel then
        let numbers := advance numbers level
        line level content (t.stringContent id) numbers :: lines t numbers rest
      else lines t numbers rest
    | _ => lines t numbers rest

/-- The table of contents of a page. -/
def tableOfContents (t : Tree) (page : NodeId) : Building NodeId :=
  group (lines t (List.replicate deepestLevel 0) (t.outermost page isHeading))

end WikiHtml.Building
