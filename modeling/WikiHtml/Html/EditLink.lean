-- Links to the editor for a part of the source text of a page.
import WikiHtml.Html.Markup
import WikiHtml.Html.Place
import WikiHtml.Repository
import WikiHtml.Settings
import WikiHtml.Text.Url

namespace WikiHtml.Html

/-- What a page is shown with: the stored pages, the settings, and whether there are links to the
editor. -/
structure View where
  repository : Repository
  settings : Settings
  editLinks : Bool

/-- A URL as the value of an attribute. -/
def urlAttr (name url : String) : String :=
  attr name (Text.encodeUrl url)

/-- What a link to the editor looks like. -/
structure EditMark where
  cssClass : String
  image : String
  message : String

/-- The mark of a section. -/
def sectionMark : EditMark := ⟨"editsection", "/edit2.png", "ViewPageHandler.html.editSection"⟩

/-- The mark of a table. -/
def tableMark : EditMark := ⟨"edittable", "/edit.png", "ViewPageHandler.html.editTable"⟩

/-- The mark of a cell of a table. -/
def cellMark : EditMark := ⟨"editcell", "/edit.png", "ViewPageHandler.html.editTableCell"⟩

/-- The mark of a code block. -/
def codeMark : EditMark := ⟨"editcode", "/edit.png", "ViewPageHandler.html.editCode"⟩

/-- The URL at which a range of the source text of a page is edited. -/
def editUrl (path : String) (span : Span) : String :=
  PagePath.toUrl (PagePath.join "/edit/" path)
    ++ "?fromPos=" ++ toString span.first ++ "&toPos=" ++ toString span.last

/-- The link to the editor for a range of the source text of a page. -/
def editLink (settings : Settings) (path : String) (span : Span) (mark : EditMark) : String :=
  startTag "a" (attr "class" mark.cssClass ++ " " ++ urlAttr "href" (editUrl path span))
    ++ startTag "img"
      (attrs [("src", mark.image), ("title", settings.message mark.message), ("alt", "")])
    ++ endTag "a"

/-- The link to the editor, where there are such links and the range and the page are known. -/
def View.editLink? (v : View) (place : Place) (span : Option Span) (mark : EditMark) :
    Option String := do
  if !v.editLinks then none
  return editLink v.settings (← place.context.join) (← span) mark

end WikiHtml.Html
