-- A page as HTML. Every kind of element has its own form, which is given what the element holds as
-- one step of the rendering; the elements of a document are then gone through in their order.
import WikiHtml.Highlight.Language
import WikiHtml.Html.Link
import WikiHtml.Html.Rendering
import WikiHtml.Text.Anchor

namespace WikiHtml.Html

/-! ## Elements that hold one -/

/-- The tag of a heading; a deep one is a plain paragraph. -/
def headingTag : Nat → String
  | 1 => "h1"
  | 2 => "h2"
  | 3 => "h3"
  | _ => "p"

/-- The attribute by which a heading is found, if its text says anything. -/
def headingAttr (child : Option Document) : String :=
  let text := (child.map Document.textContent).getD ""
  if text = "" then "" else attr "id" (Text.anchor text)

/-- Writes a link to the editor, where there is one. -/
def editMark (v : View) (place : Place) (span : Option Span) (mark : EditMark) (s : Rendering) :
    Rendering :=
  match v.editLink? place span mark with
  | some link => s.html link
  | none => s

/-- Writes what an element holds, or a label if it holds nothing. -/
def orLabel (child : Option Document) (content : Rendering → Rendering) (label : String)
    (s : Rendering) : Rendering :=
  if child.isSome then content s else s.html label

/-- The class of a paragraph. -/
def paragraphClass (centered : Bool) (indention : Nat) : String :=
  "paragraph" ++ toString indention ++ (if centered then " center" else "")

/-- A link to a command of the wiki. An unknown command is shown as text. -/
def commandLink (v : View) (place : Place) (child : Option Document)
    (content : Rendering → Rendering) (name : String) (s : Rendering) : Rendering :=
  match command? place.outermost name with
  | none => orLabel child content ("wiki:" ++ Text.escape name ++ "?") s
  | some command =>
    let shown := orLabel child content (v.settings.message command.message)
    match command.url with
    | some url => s.tag "a" (urlAttr "href" (PagePath.toUrl url)) shown
    | none => shown s

/-- A link to a file of the wiki. Outside of a page there is nothing to show. -/
def fileLink (place : Place) (child : Option Document) (content : Rendering → Rendering)
    (path : String) (s : Rendering) : Rendering :=
  match place.absolutePath path with
  | none => s
  | some target =>
    let url := PagePath.toUrl ("/file" ++ target)
    s.tag "a" (attr "class" "linkfile" ++ " " ++ urlAttr "href" url)
      (orLabel child content (Text.escape path))

/-- An element that may hold one, where `content` writes what it holds. -/
def wrapped (v : View) (place : Place) (span : Option Span) (child : Option Document)
    (content : Rendering → Rendering) (s : Rendering) : Wrapper → Rendering
  | .page _ | .xmlTag _ _ _ => content s
  | .heading level =>
    s.tag (headingTag level) (headingAttr child) fun s =>
      content (editMark v place (section? place level span) sectionMark s)
  | .paragraph centered indention spacing =>
    (if spacing && s.afterBlock then s.verticalSpace else s).div
      (paragraphClass centered indention) content
  | .listItem level isOrdered =>
    (s.write (·.nestLists level (.ofItem isOrdered))).tag "li" "" content
  | .bold => s.tag "b" "" content
  | .italic => s.tag "i" "" content
  | .underlined => s.tag "u" "" content
  | .strikethrough => s.tag "strike" "" content
  | .monospace => s.tag "tt" "" content
  | .small => s.tag "span" (attr "class" "small") content
  | .color name => s.tag "font" (attr "color" name) content
  | .style classes => s.tag "span" (attr "class" (" ".intercalate classes)) content
  | .htmlTag name attributes => s.tag name (attributes.getD "") content
  | .linkPage path anchor =>
    let target := pageTarget v.repository place path
    s.tag "a" (target.attributes anchor)
      (orLabel child content (Text.escape (target.label path anchor)))
  | .linkWiki command => commandLink v place child content command s
  | .linkLocalFile path => fileLink place child content path s
  | .linkExternal url =>
    let (cssClass, label) := externalLink url
    s.tag "a" (attrs [("class", cssClass), ("href", url)])
      (orLabel child content (Text.escape label))

/-! ## Elements that hold none -/

/-- The class of a task. -/
def taskClass : TaskState → String
  | .open => "task open"
  | .important => "task important"
  | .closed => "task closed"

/-- A task. -/
def task (state : TaskState) (schedule description : Option String) (s : Rendering) : Rendering :=
  s.div (taskClass state) fun s =>
    let s := match schedule with
      | some schedule => s.tag "span" (attr "class" "schedule") (·.text schedule)
      | none => s
    match description with
    | some description => s.text description
    | none => s

/-- A character of a text that is shown as it stands; its lines break where the text has them. -/
def plainChar (c : Char) : List Char :=
  if c = '\n' then lineBreak.toList ++ ['\n'] else Text.escapeChar c

/-- A text that is shown as it stands. -/
def plainText (text : String) : String :=
  String.ofList (text.toList.flatMap plainChar)

/-- An image. -/
def image (src : String) (options : Options) : String :=
  startTag "img" (attrs ([("src", src)] ++ options ++ [("alt", "")]))

/-- The field for a search. -/
def searchField (settings : Settings) : String :=
  startTag "input" (attrs [("type", "text"), ("name", "text"),
    ("placeholder", settings.message "ViewPageHandler.html.search")])

/-- An element that holds none. A placeholder that nothing was put in for is passed over. -/
def leaf (v : View) (place : Place) (span : Option Span) (s : Rendering) : Leaf → Rendering
  | .text text => s.text text
  | .lineBreak => s.write Writer.newLine
  | .nowiki text => s.html (plainText text)
  | .html text => s.html text
  | .anchor name => s.tag "a" (attr "name" name) id
  | .image url options =>
    match imageSource? place url with
    | some src => s.html (image src options)
    | none => s
  | .searchInput =>
    s.enclosed (·.openForm (some "searchForm") (some "/search/") .get)
      (·.html (searchField v.settings))
  | .separator => s.html (startTag "hr" "")
  | .verticalSpace => s.verticalSpace
  | .task state schedule description => task state schedule description s
  | .code language text =>
    s.div "code" fun s => (editMark v place span codeMark s).html (Highlight.html language text)
  | placeholder => s.skip placeholder.kindName

/-! ## Tables -/

/-- The attribute for the parameters of a table, row or cell. -/
def paramsAttr (params : Option String) : String :=
  (params.map (attr "class")).getD ""

/-- A table, where `rows` writes its rows. -/
def table (v : View) (place : Place) (span : Option Span) (params : Option String)
    (rows : Rendering → Rendering) (s : Rendering) : Rendering :=
  s.div "table" fun s =>
    (rows ((editMark v place span tableMark s).write
      (·.openTag "table" (paramsAttr params)))).startLine

/-- A row, where `cells` writes its cells. -/
def row (params : Option String) (cells : Rendering → Rendering) (s : Rendering) : Rendering :=
  s.startLine.tag "tr" (paramsAttr params) fun s => (cells s).startLine

/-- A cell, where `content` writes what it holds. A cell with a link to the editor holds that in a
block of its own, and a paragraph at its start keeps no distance. -/
def cell (v : View) (place : Place) (header : Bool) (params : Option String)
    (child : Option Document) (content : Rendering → Rendering) (s : Rendering) : Rendering :=
  let span := child.bind Document.span
  s.startLine.tag (if header then "th" else "td") (paramsAttr params) fun s =>
    let s :=
      if v.editLinks && span.isSome then
        editMark v place span cellMark (s.write (·.openDiv (some "tablecell") none))
      else s
    content { s with afterBlock := false }

/-! ## Documents -/

mutual

/-- Writes a document. -/
def draw (v : View) (place : Place) (s : Rendering) : Document → Rendering
  | .node element span =>
    let inner := place.within element
    let s := s.enter element
    let s := match element with
      | .list members => drawMembers v inner span s members
      | .wrap wrapper child =>
        wrapped v place span child (fun s => drawChild v inner s child) s wrapper
      | .table params rows => table v place span params (fun s => drawRows v inner s rows) s
      | .leaf l => leaf v place span s l
    s.leave element

/-- Writes the members of a list, of which the range is given. -/
def drawMembers (v : View) (place : Place) (span : Option Span) (s : Rendering) :
    List Document → Rendering
  | [] => s
  | document :: rest =>
    drawMembers v place span (draw v (place.member rest span) s document) rest

/-- Writes what an element may hold. -/
def drawChild (v : View) (place : Place) (s : Rendering) : Option Document → Rendering
  | none => s
  | some document => draw v place s document

/-- Writes the rows of a table. -/
def drawRows (v : View) (place : Place) (s : Rendering) : List (Row Document) → Rendering
  | [] => s
  | ⟨params, cells⟩ :: rest =>
    drawRows v place (row params (fun s => drawCells v place s cells) s) rest

/-- Writes the cells of a row. -/
def drawCells (v : View) (place : Place) (s : Rendering) : List (Cell Document) → Rendering
  | [] => s
  | ⟨header, params, content⟩ :: rest =>
    drawCells v place
      (cell v place header params content (fun s => drawChild v place s content) s) rest

end

/-- The HTML of a page, with all tags closed. -/
def page (v : View) (document : Document) : Writer :=
  (draw v (Place.top document) .empty document).writer.closeAll

end WikiHtml.Html
