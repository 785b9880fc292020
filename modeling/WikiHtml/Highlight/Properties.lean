-- The lexer of properties files: lines with a key, a delimiter and a value.
import WikiHtml.Highlight.Scanner

namespace WikiHtml.Highlight.Properties

/-- The part of a line that is expected next. -/
inductive Expect where
  | key
  | delimiter
  | value
  deriving DecidableEq, Repr

/-- Whether a comment starts with `c`: a number sign, a semicolon or two slashes. -/
def startsComment (c : Char) (rest : List Char) : Bool :=
  c == '#' || c == ';' || (c == '/' && rest.head? == some '/')

/-- The characters that end a key. -/
def endsKey (c : Char) : Bool :=
  isBlank c || c == '=' || c == ':' || c == '\n'

/-- The token that starts with `c` where a part of a line is expected. -/
def cut (expect : Expect) (c : Char) (rest : List Char) : Cut Expect :=
  if c = '\n' then ⟨.lineBreak, 0, .key⟩
  else if expect = .key && startsComment c rest then ⟨.comment, lengthOfLine rest, .key⟩
  else if isBlank c then ⟨.whitespace, lengthOfBlanks rest, expect⟩
  else
    match expect with
    | .key => ⟨.key, lengthUntil endsKey rest, .delimiter⟩
    | .delimiter =>
      if c = '=' || c = ':' then ⟨.delimiter, 0, .value⟩
      else ⟨.value, lengthOfLine rest, .key⟩
    | .value => ⟨.value, lengthOfLine rest, .key⟩

/-- The lexer of properties files. -/
def lexer : Lexer := ⟨Expect, .key, cut⟩

/-! ## Reading -/

/-- Whether the character that was read last starts a comment. -/
def isCommentStart (s : Scanner) (c : Char) : Bool :=
  c == '#' || c == ';' || (c == '/' && s.peek == some '/')

/-- Reads the next token where a part of a line is expected. -/
def nextToken (expect : Expect) (s : Scanner) : Option (Token × Expect × Scanner) := do
  let (c, s) ← s.nextChar
  return (
    if c = '\n' then s.one c .lineBreak .key
    else if expect = .key && isCommentStart s c then s.upTo c isBreak .comment expect
    else if isBlank c then s.upTo c (!isBlank ·) .whitespace expect
    else if expect = .key then s.upTo c endsKey .key .delimiter
    else if expect = .delimiter && (c = '=' || c = ':') then s.one c .delimiter .value
    else s.upTo c isBreak .value .key)

/-- The tokenizer of properties files. -/
def tokenizer : Tokenizer := ⟨Expect, .key, nextToken⟩

end WikiHtml.Highlight.Properties
