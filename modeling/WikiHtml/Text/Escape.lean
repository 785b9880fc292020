-- Escaping of text that is put into HTML: for text and quoted attributes, and for code, whose
-- blanks must stay visible.

namespace WikiHtml.Text

/-! ## Text and attributes -/

/-- A character as it is written in HTML text and in quoted attributes. -/
def escapeChar : Char → List Char
  | '&' => ['&', 'a', 'm', 'p', ';']
  | '"' => ['&', 'q', 'u', 'o', 't', ';']
  | '\'' => ['&', 'a', 'p', 'o', 's', ';']
  | '<' => ['&', 'l', 't', ';']
  | '>' => ['&', 'g', 't', ';']
  | c => [c]

/-- The characters of a text as they are written in HTML text and in quoted attributes. -/
def escapeChars (text : List Char) : List Char :=
  text.flatMap escapeChar

/-- A text as it is written in HTML text and in quoted attributes. -/
def escape (s : String) : String :=
  String.ofList (escapeChars s.toList)

/-! ## Code -/

/-- The blanks that a code block shows as blanks that do not collapse. -/
def isCodeBlank (c : Char) : Bool :=
  c == ' ' || c == '\t' || c == '\n' || c == '\x0b' || c == '\x0c' || c == '\r'

/-- A blank that neither collapses nor breaks a line. -/
def nonBreakingSpace : List Char :=
  ['&', 'n', 'b', 's', 'p', ';']

/-- A character of an escaped text as it is written in a code block. -/
def keepBlank (c : Char) : List Char :=
  if isCodeBlank c then nonBreakingSpace else [c]

/-- The characters of a text as they are written in a code block: escaped first, then with blanks
that do not collapse. -/
def escapeCodeChars (text : List Char) : List Char :=
  (escapeChars text).flatMap keepBlank

/-- A text as it is written in a code block. -/
def escapeCode (s : String) : String :=
  String.ofList (escapeCodeChars s.toList)

end WikiHtml.Text
