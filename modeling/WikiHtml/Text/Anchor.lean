-- Names for places in a page: the text of a heading cut down to what may stand in an `id` attribute
-- and after the `#` of a URL.

namespace WikiHtml.Text

/-- The characters that may start an anchor. -/
def isAnchorStart (c : Char) : Bool :=
  c.isAlpha || c == '_'

/-- The characters that may stand in an anchor after its start. -/
def isAnchorRest (c : Char) : Bool :=
  isAnchorStart c || c.isDigit || c == '-' || c == '.' || c == ':'

/-- The anchor of a heading text: all before the first letter or underscore is dropped, and from
there on all that may not stand in an anchor. -/
def anchor (s : String) : String :=
  String.ofList ((s.toList.dropWhile (!isAnchorStart ·)).filter isAnchorRest)

end WikiHtml.Text
