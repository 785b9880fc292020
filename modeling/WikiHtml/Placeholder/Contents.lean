-- The table of contents of a page: a line for each heading of the first three levels, with its
-- number and a link to it.
import WikiHtml.Document.Build
import WikiHtml.Text.Anchor

namespace WikiHtml.Placeholder

open Document

/-- The deepest level of headings in a table of contents. -/
def deepestLevel : Nat := 3

/-- A heading: its level and its content. -/
structure Heading where
  level : Nat
  content : Option Document

/-- The heading that an element is. -/
def heading? : Element Document → Option Heading
  | .wrap (.heading level) child => some ⟨level, child⟩
  | _ => none

/-- Whether a heading has a line in the table of contents. -/
def Heading.isListed (h : Heading) : Bool :=
  1 ≤ h.level && h.level ≤ deepestLevel

/-- The text of a heading. -/
def Heading.text (h : Heading) : String :=
  match h.content with
  | some content => content.textContent
  | none => ""

/-- The numbers after a heading of a level. There is one number for each level: that of the level
is raised, and those of deeper levels start again. -/
def advance (numbers : List Nat) (level : Nat) : List Nat :=
  numbers.take (level - 1) ++ [(numbers[level - 1]?.getD 0) + 1]
    ++ List.replicate (deepestLevel - level) 0

/-- The number of a heading, with a point after each part. -/
def numbering (numbers : List Nat) (level : Nat) : String :=
  String.join ((numbers.take level).map fun n => toString n ++ ".") ++ " "

/-- The line of a heading. -/
def line (h : Heading) (numbers : List Nat) : Document :=
  let label := group (Document.text (numbering numbers h.level) :: h.content.toList)
  wrapped (.paragraph false h.level false)
    (wrapped (.linkPage none (some (Text.anchor h.text))) label)

/-- The lines of headings, where `numbers` holds the numbers of the last heading before them. -/
def lines (numbers : List Nat) : List Heading → List Document
  | [] => []
  | h :: rest =>
    if h.isListed then
      let numbers := advance numbers h.level
      line h numbers :: lines numbers rest
    else lines numbers rest

/-- The table of contents of a page. -/
def tableOfContents (page : Document) : Document :=
  group (lines (List.replicate deepestLevel 0) (page.outermost heading?))

end WikiHtml.Placeholder
