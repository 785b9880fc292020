-- The lexer of XML and HTML: tags with attributes, comments, character data and references.
import WikiHtml.Highlight.Scanner
import WikiHtml.Unicode.Class

namespace WikiHtml.Highlight.Xml

/-- The construct that the lexer is in. -/
inductive Expect where
  | text
  | tag
  | attributeName
  | attributeValue
  | comment
  | cdata
  deriving DecidableEq, Repr

/-- Whether the lexer is between `<` and `>`. -/
def Expect.inTag : Expect → Bool
  | .tag | .attributeName | .attributeValue => true
  | _ => false

/-- The characters that may start a name. -/
def isNameStart (c : Char) : Bool :=
  Unicode.isAlphabetic c || c == '_'

/-- The characters of names. -/
def isNameChar (c : Char) : Bool :=
  Unicode.isAlphanumeric c || c == '_' || c == '-' || c == '.' || c == ':'

/-- How many characters of a line belong to a comment, and what is expected after them. -/
def commentPart : List Char → Nat × Expect
  | [] => (0, .comment)
  | '\n' :: _ => (0, .comment)
  | '-' :: '-' :: '>' :: _ => (3, .text)
  | '-' :: '-' :: _ => (2, .text)
  | _ :: rest =>
    let part := commentPart rest
    (part.1 + 1, part.2)

/-- How many characters of a line stand before the end mark of a CDATA section. -/
def cdataLength : List Char → Nat
  | [] => 0
  | '\n' :: _ => 0
  | ']' :: ']' :: '>' :: _ => 0
  | _ :: rest => cdataLength rest + 1

/-- How many characters belong to a quoted value after its opening quote: all up to the closing
quote, or to the end of the line. -/
def quotedLength (quote : Char) : List Char → Nat
  | [] => 0
  | '\n' :: _ => 0
  | c :: rest => if c = quote then 1 else quotedLength quote rest + 1

/-- How many characters belong to a reference after the `&`: all up to a semicolon, which belongs
to it, or to a blank, which does not. -/
def referenceLength : List Char → Nat
  | [] => 0
  | ';' :: _ => 1
  | c :: rest => if Unicode.isWhiteSpace c then 0 else referenceLength rest + 1

/-- The characters that end a value without quotes. -/
def endsBareValue (c : Char) : Bool :=
  c == '/' || c == '?' || c == '>' || Unicode.isWhiteSpace c

/-- The token that starts with `<`. -/
def cutMark (expect : Expect) (rest : List Char) : Cut Expect :=
  if "!--".toList.isPrefixOf rest then
    let part := commentPart (rest.drop 3)
    ⟨.comment, part.1 + 3, part.2⟩
  else if expect = .cdata then ⟨.text, cdataLength rest, .cdata⟩
  else if "![CDATA[".toList.isPrefixOf rest then ⟨.tag, 8, .cdata⟩
  else ⟨.specialCharacter, 0, .tag⟩

/-- The token that starts with `c`, which is no line break and no `<`, outside comments and CDATA
sections. -/
def cutPlain (expect : Expect) (c : Char) (rest : List Char) : Cut Expect :=
  if (c = '/' || c = '?' || c = '!') && expect != .text then ⟨.specialCharacter, 0, .tag⟩
  else if c = '>' then ⟨.specialCharacter, 0, .text⟩
  else if c = '&' then ⟨.escapedCharacter, referenceLength rest, .text⟩
  else if expect = .tag && isNameStart c then
    ⟨.tag, lengthUntil (!isNameChar ·) rest, .attributeName⟩
  else if expect = .attributeName && isNameStart c then
    ⟨.attributeName, lengthUntil (!isNameChar ·) rest, .attributeName⟩
  else if expect = .attributeName && c = '=' then ⟨.specialCharacter, 0, .attributeValue⟩
  else if (expect = .attributeName || expect = .attributeValue) && c != '='
      && !Unicode.isWhiteSpace c then
    let more :=
      if c = '"' || c = '\'' then quotedLength c rest else lengthUntil endsBareValue rest
    ⟨.attributeValue, more, .attributeName⟩
  else
    let stop (c : Char) := c == '<' || c == '&' || c == '\n'
      || (expect.inTag && !Unicode.isWhiteSpace c)
    ⟨.text, lengthUntil stop rest, expect⟩

/-- The token that starts with `c`. -/
def cut (expect : Expect) (c : Char) (rest : List Char) : Cut Expect :=
  if c = '\n' then ⟨.lineBreak, 0, expect⟩
  else if expect = .comment then
    let part := commentPart (c :: rest)
    ⟨.comment, part.1 - 1, part.2⟩
  else if c = '<' then cutMark expect rest
  else if expect = .cdata then
    if "]]>".toList.isPrefixOf (c :: rest) then ⟨.tag, 2, .text⟩
    else ⟨.text, cdataLength rest, .cdata⟩
  else cutPlain expect c rest

/-- The lexer of XML and HTML. -/
def lexer : Lexer := ⟨Expect, .text, cut⟩

/-! ## Reading -/

/-- Reads the rest of the line of a comment, and tells what is expected then. -/
def comment (text : String) (s : Scanner) : String × Expect × Scanner :=
  match _ : s.nextChar with
  | none => (text, .comment, s)
  | some (c, s') =>
    if c = '\n' then (text, .comment, s'.unread)
    else
      let text := text.push c
      if c = '-' && (s'.eat "-").1 then
        let text := text.push '-'
        let s' := (s'.eat "-").2
        (if (s'.eat ">").1 then text.push '>' else text, .text, (s'.eat ">").2)
      else comment text s'
termination_by s.left
decreasing_by exact Scanner.left_lt ‹_›

/-- Reads up to the end mark of a CDATA section, or up to the end of the line. -/
def cdataText (text : String) (s : Scanner) : String × Scanner :=
  if s.peek = some '\n' || s.isAt "]]>" then (text, s)
  else
    match _ : s.nextChar with
    | none => (text, s)
    | some (c, s') => cdataText (text.push c) s'
termination_by s.left
decreasing_by exact Scanner.left_lt ‹_›

/-- Reads the rest of the line of a CDATA section, or its end mark. -/
def cdata (s : Scanner) : Token × Expect × Scanner :=
  if (s.eat "]]>").1 then (.of .tag "]]>", .text, (s.eat "]]>").2)
  else Scanner.token .text .cdata (cdataText "" s)

/-- Reads a value up to its closing quote, or up to the end of the line. -/
def quoted (quote : Char) (text : String) (s : Scanner) : String × Scanner :=
  match _ : s.nextChar with
  | none => (text, s)
  | some (c, s') =>
    if c = '\n' then (text, s'.unread)
    else
      let text := text.push c
      if c = quote then (text, s') else quoted quote text s'
termination_by s.left
decreasing_by exact Scanner.left_lt ‹_›

/-- Reads the value of an attribute from its first character on. -/
def attributeValue (first : Char) (s : Scanner) : String × Scanner :=
  if first = '"' || first = '\'' then quoted first (String.singleton first) s
  else
    s.takeUntil first fun c =>
      c == '/' || c == '?' || c == '>' || c == '\n' || Unicode.isWhiteSpace c

/-- Reads a reference up to its semicolon, or up to a blank, which is put back. -/
def reference (text : String) (s : Scanner) : String × Scanner :=
  match _ : s.nextChar with
  | none => (text, s)
  | some (c, s') =>
    if Unicode.isWhiteSpace c then (text, s'.unread)
    else
      let text := text.push c
      if c = ';' then (text, s') else reference text s'
termination_by s.left
decreasing_by exact Scanner.left_lt ‹_›

/-- A line of a comment. -/
def commentToken (read : String × Expect × Scanner) : Token × Expect × Scanner :=
  (.of .comment read.1, read.2.1, read.2.2)

/-- Reads the next token. -/
def nextToken (expect : Expect) (s : Scanner) : Option (Token × Expect × Scanner) := do
  let (c, s) ← s.nextChar
  return (
    if c = '\n' then s.one c .lineBreak expect
    else if expect = .comment then commentToken (comment "" s.unread)
    else if c = '<' && (s.eat "!--").1 then commentToken (comment "<!--" (s.eat "!--").2)
    else if expect = .cdata then cdata s.unread
    else if c = '<' && (s.eat "![CDATA[").1 then
      Scanner.token .tag .cdata ("<![CDATA[", (s.eat "![CDATA[").2)
    else if c = '<' then s.one c .specialCharacter .tag
    else if (c = '/' || c = '?' || c = '!') && expect != .text then
      s.one c .specialCharacter .tag
    else if c = '>' then s.one c .specialCharacter .text
    else if c = '&' then
      Scanner.token .escapedCharacter .text (reference (String.singleton c) s)
    else if expect = .tag && isNameStart c then s.upTo c (!isNameChar ·) .tag .attributeName
    else if expect = .attributeName && isNameStart c then
      s.upTo c (!isNameChar ·) .attributeName expect
    else if expect = .attributeName && c = '=' then s.one c .specialCharacter .attributeValue
    else if (expect = .attributeName || expect = .attributeValue) && c != '='
        && !Unicode.isWhiteSpace c then
      Scanner.token .attributeValue .attributeName (attributeValue c s)
    else
      let stop (c : Char) := c == '<' || c == '&' || c == '\n'
        || (expect.inTag && !Unicode.isWhiteSpace c)
      s.upTo c stop .text expect)

/-- The tokenizer of XML and HTML. -/
def tokenizer : Tokenizer := ⟨Expect, .text, nextToken⟩

end WikiHtml.Highlight.Xml
