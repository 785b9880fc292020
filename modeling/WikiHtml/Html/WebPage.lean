-- Complete HTML documents: what was written, in a document with a head and a body; and the small
-- pages that show no more than a message.
import WikiHtml.Html.Writer
import WikiHtml.Settings

namespace WikiHtml.Html

/-- The document type of every web page. -/
def docType : String :=
  "<!DOCTYPE HTML PUBLIC \"-//W3C//DTD HTML 4.01 Transitional//EN\" "
    ++ "\"http://www.w3.org/TR/html4/loose.dtd\">"

/-- A text that ends in a line break. -/
def asLine (s : String) : String :=
  if s.toList.getLast? = some '\n' then s else s ++ "\n"

/-- Lines, each of them indented and with a line break. -/
def indented (lines : List String) : String :=
  String.join (lines.map fun line => "  " ++ line ++ "\n")

/-- The title of a web page: what was written as one, and the name of the program. -/
def fullTitle (w : Writer) (settings : Settings) : String :=
  match w.title with
  | some title => title ++ " | " ++ settings.programName
  | none => settings.programName

/-- The links to the stylesheets and scripts of a wiki. -/
def assets (settings : Settings) : List String :=
  (settings.scripts.foldl Writer.script
    (settings.stylesheets.foldl Writer.stylesheet .empty)).head

/-- The start of the body, with its attributes as they are written. -/
def bodyStart (w : Writer) : String :=
  match w.bodyAttributes with
  | some attributes => "<body " ++ attributes ++ ">"
  | none => startTag "body" ""

/-- The web page of what was written. `extraHead` stands at the end of the head as it is. -/
def webPage (w : Writer) (settings : Settings) (extraHead : Option String) : String :=
  let w := w.closeAll
  docType ++ "\n<html>\n<head>\n"
    ++ indented (("<title>" ++ Text.escape (fullTitle w settings) ++ "</title>")
        :: assets settings ++ w.head)
    ++ ((extraHead.map asLine).getD "")
    ++ "</head>\n"
    ++ bodyStart w ++ "\n"
    ++ indented w.body
    ++ "</body>\n</html>\n"

/-! ## Messages -/

/-- A text in bold. -/
def boldText (s : String) : String :=
  startTag "b" "" ++ Text.escape s ++ endTag "b"

/-- A page that shows a message. -/
def messagePage (message : String) : Writer :=
  Writer.empty.text (boldText message)

/-- A page that shows an error with a title, a message and details. -/
def errorPage (title message : String) (details : Option String) : Writer :=
  let w := ((Writer.empty.setTitle title).text (boldText message)).newLine
  match details with
  | some details => (w.text (Text.escape details)).newLine
  | none => w

end WikiHtml.Html
