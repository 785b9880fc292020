-- HTML that is written piece by piece. The body is a list of lines; a new line is indented by the
-- number of open tags, and open tags are kept on a stack, so that each is closed by its own end.
import WikiHtml.Html.Markup

namespace WikiHtml.Html

/-- What has been written. The newest line of the body and the innermost open tag come first; with
`atNewLine` the next text starts a line. -/
structure Writer where
  title : Option String
  head : List String
  bodyAttributes : Option String
  lines : List String
  stack : List String
  atNewLine : Bool
  deriving DecidableEq, Repr

/-- How a form is sent. -/
inductive FormMethod where
  | get
  | post
  deriving DecidableEq, Repr

/-- The name of a form method. -/
def FormMethod.name : FormMethod → String
  | .get => "get"
  | .post => "post"

namespace Writer

/-- Nothing is written yet. -/
def empty : Writer where
  title := none
  head := []
  bodyAttributes := none
  lines := []
  stack := []
  atNewLine := true

/-! ## Head -/

/-- Sets the title. -/
def setTitle (w : Writer) (title : String) : Writer :=
  { w with title := some title }

/-- Sets the attributes of the body, as they are written. -/
def setBodyAttributes (w : Writer) (attributes : String) : Writer :=
  { w with bodyAttributes := some attributes }

/-- Adds a line to the head. -/
def addHead (w : Writer) (line : String) : Writer :=
  { w with head := w.head ++ [line] }

/-- Leads to another URL after some seconds. -/
def redirect (w : Writer) (url : String) (seconds : Nat) : Writer :=
  w.addHead (emptyTag "meta" (attrs
    [("http-equiv", "Refresh"), ("content", toString seconds ++ "; URL=" ++ url)]))

/-- Links a stylesheet. -/
def stylesheet (w : Writer) (url : String) : Writer :=
  w.addHead (emptyTag "link" (attrs
    [("rel", "stylesheet"), ("type", "text/css"), ("href", url)]))

/-- Loads a script. -/
def script (w : Writer) (url : String) : Writer :=
  w.addHead (startTag "script" (attrs [("type", "text/javascript"), ("src", url)])
    ++ endTag "script")

/-! ## Text -/

/-- The lines of the body. -/
def body (w : Writer) : List String := w.lines.reverse

/-- The number of open tags. -/
def depth (w : Writer) : Nat := w.stack.length

/-- Makes the next text start a line. -/
def startLine (w : Writer) : Writer :=
  { w with atNewLine := true }

/-- What a new line starts with: two blanks for each open tag. -/
def indentation (w : Writer) : String :=
  String.ofList (List.replicate (2 * w.depth) ' ')

/-- Writes a text as it is, in the current line or in a new one. -/
def text (w : Writer) (s : String) : Writer :=
  match w.atNewLine, w.lines with
  | false, line :: earlier => { w with lines := (line ++ s) :: earlier }
  | _, lines => { w with lines := (w.indentation ++ s) :: lines, atNewLine := false }

/-- Writes a line break, and makes the next text start a line. -/
def newLine (w : Writer) : Writer :=
  (w.text lineBreak).startLine

/-! ## Tags -/

/-- Opens a tag with its attributes as they are written. -/
def openTag (w : Writer) (name attributes : String) : Writer :=
  let w := w.text (startTag name attributes)
  { w with stack := name :: w.stack }

/-- Opens a `div` with a class and with attributes as they are written. -/
def openDiv (w : Writer) (cssClass attributes : Option String) : Writer :=
  let parts := (cssClass.map (attr "class")).toList ++ attributes.toList
  w.openTag "div" (" ".intercalate parts)

/-- Opens a `span` with a class. -/
def openSpan (w : Writer) (cssClass : String) : Writer :=
  w.openTag "span" (attr "class" cssClass)

/-- Opens a form. -/
def openForm (w : Writer) (name action : Option String) (method : FormMethod) : Writer :=
  w.openTag "form" (attrs (
    [("method", method.name)]
      ++ action.toList.map (fun url => ("action", url))
      ++ [("enctype", "application/x-www-form-urlencoded")]
      ++ name.toList.map (fun name => ("name", name))))

/-- Closes the innermost open tag, if there is one. -/
def closeTag (w : Writer) : Writer :=
  match w.stack with
  | [] => w
  | name :: outer => { w with stack := outer }.text (endTag name)

/-- Closes so many tags, the innermost first. -/
def closeTags (w : Writer) : Nat → Writer
  | 0 => w
  | n + 1 => w.closeTag.closeTags n

/-- Closes tags until no more than `depth` are open. -/
def closeTo (w : Writer) (depth : Nat) : Writer :=
  w.closeTags (w.depth - depth)

/-- Closes all tags. -/
def closeAll (w : Writer) : Writer :=
  w.closeTo 0

/-- The open tag that is `down` tags away from the innermost one. -/
def tag? (w : Writer) (down : Nat) : Option String :=
  w.stack[down]?

/-! ## Other writers -/

/-- Writes lines, each of them as a line of its own. -/
def addLines (w : Writer) (lines : List String) : Writer :=
  lines.foldl (fun w line => w.startLine.text line) w

/-- Closes all tags of another writer and takes over the lines of its body. -/
def absorb (w other : Writer) : Writer :=
  (w.addLines other.closeAll.body).startLine

end Writer

end WikiHtml.Html
