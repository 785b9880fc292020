-- A page that is being rendered: what has been written so far, and how the next element is written
-- into it.
import WikiHtml.Html.ListRun
import WikiHtml.Element

namespace WikiHtml.Html

/-- What has been rendered so far. `afterBlock` says whether the element before, anchors not
counted, is one that a paragraph with vertical spacing keeps away from. `skipped` names the kinds of
the placeholders that nothing was put in for, for each of which there is a warning; the last one
comes first. -/
structure Rendering where
  writer : Writer
  afterBlock : Bool
  skipped : List String
  deriving DecidableEq, Repr

namespace Rendering

/-- Nothing is rendered yet. -/
def empty : Rendering := ⟨.empty, false, []⟩

/-! ## Writing -/

/-- Writes something. -/
def write (s : Rendering) (f : Writer → Writer) : Rendering :=
  { s with writer := f s.writer }

/-- Writes HTML as it is. -/
def html (s : Rendering) (text : String) : Rendering :=
  s.write (·.text text)

/-- Writes a text so that it means itself. -/
def text (s : Rendering) (text : String) : Rendering :=
  s.html (Text.escape text)

/-- Makes what comes next start a line. -/
def startLine (s : Rendering) : Rendering :=
  s.write Writer.startLine

/-- Writes content, and closes the tags that it leaves open. -/
def enclosed (s : Rendering) (start : Writer → Writer) (content : Rendering → Rendering) :
    Rendering :=
  (content (s.write start)).write (·.closeTo s.writer.depth)

/-- Writes content in a tag with its attributes as they are written. -/
def tag (s : Rendering) (name attributes : String) (content : Rendering → Rendering) : Rendering :=
  s.enclosed (·.openTag name attributes) content

/-- Writes content in a `div` with a class. -/
def div (s : Rendering) (cssClass : String) (content : Rendering → Rendering) : Rendering :=
  s.enclosed (·.openDiv (some cssClass) none) content

/-- Writes an empty block that keeps blocks apart. -/
def verticalSpace (s : Rendering) : Rendering :=
  (s.div "verticalspace" id).startLine

/-- Passes over a placeholder of a kind that nothing was put in for. -/
def skip (s : Rendering) (kind : String) : Rendering :=
  { s with skipped := kind :: s.skipped }

/-! ## Elements in their order -/

variable {α : Type}

/-- Whether an element is an item of a list. -/
def isListItem : Element α → Bool
  | .wrap (.listItem _ _) _ => true
  | _ => false

/-- Whether an element is an anchor. -/
def isAnchor : Element α → Bool
  | .leaf (.anchor _) => true
  | _ => false

/-- Whether an element is one that a paragraph with vertical spacing keeps away from. -/
def isSpacedBlock : Element α → Bool
  | .wrap (.paragraph _ _ _) _ | .wrap (.listItem _ _) _ | .table _ _ => true
  | _ => false

/-- Starts a line before and after an element that does not share one. -/
def breakFor (element : Element α) (s : Rendering) : Rendering :=
  if element.isInline then s else s.startLine

/-- What is done before an element: lists end at anything but an item. -/
def enter (element : Element α) (s : Rendering) : Rendering :=
  breakFor element (if isListItem element then s else s.write Writer.finishLists)

/-- What is done after an element. -/
def leave (element : Element α) (s : Rendering) : Rendering :=
  let s := breakFor element s
  if isAnchor element then s else { s with afterBlock := isSpacedBlock element }

end Rendering

end WikiHtml.Html
