-- A page in one piece: every element holds its own elements, so nothing is shared and nothing goes
-- in a circle.
import WikiHtml.Element

namespace WikiHtml

/-- An element with all that it holds, and the range of the source text that it was read from. -/
inductive Document where
  | node (element : Element Document) (span : Option Span)

namespace Document

/-- The element at the top. -/
def element : Document → Element Document
  | .node element _ => element

/-- The range of the source text of the element at the top. -/
def span : Document → Option Span
  | .node _ span => span

end Document

end WikiHtml
