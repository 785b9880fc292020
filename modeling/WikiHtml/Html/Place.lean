-- Where an element of a page stands: the page that it belongs to, and the list that it is a member
-- of. From there comes the part of the source text that a heading stands for.
import WikiHtml.Document.Search

namespace WikiHtml.Html

/-- The list that an element is a member of: the members after it, and the range of the source text
of the whole list. -/
structure InList where
  following : List Document
  span : Option Span

/-- Where an element stands: the page that it belongs to, the path of the outermost page, and the
list that it is a member of. -/
structure Place where
  context : Document.Context
  outermost : Option String
  inList : Option InList

namespace Place

/-- The place of a whole document. -/
def top (document : Document) : Place where
  context := none
  outermost := (Document.contextOf none document.element).join
  inList := none

/-- The place of what an element holds. -/
def within (place : Place) (element : Element Document) : Place :=
  { place with context := Document.contextOf place.context element, inList := none }

/-- The place of a member of a list. -/
def member (place : Place) (following : List Document) (span : Option Span) : Place :=
  { place with inList := some ⟨following, span⟩ }

/-- A path made absolute for the folder of the page. -/
def absolutePath (place : Place) (path : String) : Option String :=
  Document.absolutePath (some path) place.context

end Place

/-! ## Sections -/

/-- The level of a heading. -/
def headingLevel? : Element Document → Option Nat
  | .wrap (.heading level) _ => some level
  | _ => none

/-- Whether a document is a heading that ends a section of the level. -/
def endsSection (level : Nat) (document : Document) : Bool :=
  (headingLevel? document.element).any (· ≤ level)

/-- Where the section of a heading ends: where the next heading of the same or a lower level in the
list starts, or else where the list ends. -/
def InList.sectionEnd? (inList : InList) (level : Nat) : Option Nat :=
  match inList.following.find? (endsSection level) with
  | some next => next.span.map (·.first)
  | none => inList.span.map (·.last)

/-- The section of a heading. -/
def section? (place : Place) (level : Nat) (span : Option Span) : Option Span := do
  let heading ← span
  let inList ← place.inList
  return ⟨heading.first, ← inList.sectionEnd? level⟩

end WikiHtml.Html
