-- The text of HTML tags. The values of attributes are escaped here, and nowhere else.
import WikiHtml.Text.Escape

namespace WikiHtml.Html

/-- An attribute; its name and its value are escaped. -/
def attr (name value : String) : String :=
  Text.escape name ++ "=\"" ++ Text.escape value ++ "\""

/-- Attributes with blanks between them. -/
def attrs (pairs : List (String × String)) : String :=
  " ".intercalate (pairs.map fun (name, value) => attr name value)

/-- A start tag with its attributes as they are written. -/
def startTag (name attributes : String) : String :=
  if attributes = "" then "<" ++ name ++ ">" else "<" ++ name ++ " " ++ attributes ++ ">"

/-- An end tag. -/
def endTag (name : String) : String :=
  "</" ++ name ++ ">"

/-- A tag that has no content, in the form that says so. -/
def emptyTag (name attributes : String) : String :=
  "<" ++ name ++ " " ++ attributes ++ " />"

/-- A line break. -/
def lineBreak : String := startTag "br" ""

end WikiHtml.Html
