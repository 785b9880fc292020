-- The languages whose code is highlighted, and code blocks as HTML, one `span` for each token that
-- has a class of its own.
import WikiHtml.Highlight.Ini
import WikiHtml.Highlight.Java
import WikiHtml.Highlight.Properties
import WikiHtml.Highlight.Xml
import WikiHtml.Highlight.Yaml
import WikiHtml.Text.Escape

namespace WikiHtml.Highlight

/-- A language with a lexer. -/
inductive Language where
  | ini
  | java
  | properties
  | xml
  | yaml
  deriving DecidableEq, Repr

/-- The language of a name in lower case. -/
def Language.ofLowerName : String → Option Language
  | "html" => some .xml
  | "ini" => some .ini
  | "java" => some .java
  | "properties" => some .properties
  | "xml" => some .xml
  | "yaml" => some .yaml
  | "yml" => some .yaml
  | _ => none

/-- The language of a name; the case of ASCII letters does not count. -/
def Language.ofName (name : String) : Option Language :=
  Language.ofLowerName (String.ofList (name.toList.map Char.toLower))

/-- The name of a language in classes. -/
def Language.cssName : Language → String
  | .ini => "ini"
  | .java => "java"
  | .properties => "properties"
  | .xml => "xml"
  | .yaml => "yaml"

/-- The lexer of a language. -/
def Language.lexer : Language → Lexer
  | .ini => Ini.lexer
  | .java => Java.lexer
  | .properties => Properties.lexer
  | .xml => Xml.lexer
  | .yaml => Yaml.lexer

/-- The tokenizer of a language. -/
def Language.tokenizer : Language → Tokenizer
  | .ini => Ini.tokenizer
  | .java => Java.tokenizer
  | .properties => Properties.tokenizer
  | .xml => Xml.tokenizer
  | .yaml => Yaml.tokenizer

/-- The tokens of a code block. -/
def Language.tokens (language : Language) (code : String) : List Token :=
  (language.tokenizer.tokens? code).getD []

/-! ## HTML -/

/-- The name of a kind in classes; a kind without one is not highlighted. -/
def TokenKind.cssName : TokenKind → Option String
  | .attributeName => some "attribute-name"
  | .attributeValue => some "attribute-value"
  | .comment => some "comment"
  | .delimiter => some "delimiter"
  | .documentSeparator => some "document-separator"
  | .escapedCharacter => some "escaped-character"
  | .key => some "key"
  | .keyword => some "keyword"
  | .multilineText => some "multiline-text"
  | .sectionBracket => some "section-bracket"
  | .sectionName => some "section-name"
  | .specialCharacter => some "special-character"
  | .string => some "string"
  | .tag => some "tag"
  | .value => some "value"
  | .any | .identifier | .lineBreak | .text | .whitespace => none

/-- A line break in a code block. -/
def lineBreakHtml : List Char :=
  ['<', 'b', 'r', '>', '\n']

/-- The start tag around a token of a class. -/
def spanStart (language : Language) (cssName : String) : List Char :=
  "<span class=\"code-".toList ++ language.cssName.toList ++ ['-'] ++ cssName.toList ++ ['"', '>']

/-- The end tag around a token. -/
def spanEnd : List Char :=
  "</span>".toList

/-- A token as HTML. -/
def Token.html (language : Language) (token : Token) : List Char :=
  if token.kind = .lineBreak then lineBreakHtml
  else
    let text := Text.escapeCodeChars token.text
    match token.kind.cssName with
    | some cssName => spanStart language cssName ++ text ++ spanEnd
    | none => text

/-- A character of the escaped text of a code block that is not highlighted. -/
def plainChar (c : Char) : List Char :=
  if c = '\n' then lineBreakHtml
  else if c = '\r' then []
  else Text.keepBlank c

/-- A code block as HTML without highlighting. -/
def plain (code : String) : String :=
  String.ofList ((Text.escape code).toList.flatMap plainChar)

/-- A code block of a language as HTML. -/
def Language.html (language : Language) (code : String) : String :=
  String.ofList ((language.tokens code).flatMap (Token.html language))

/-- A code block as HTML; one without a known language is not highlighted. -/
def html (languageName : Option String) (code : String) : String :=
  match languageName.bind Language.ofName with
  | some language => language.html code
  | none => plain code

end WikiHtml.Highlight
