-- The lexer of INI files: sections in brackets, and lines with a key, a delimiter and a value.
import WikiHtml.Highlight.Scanner

namespace WikiHtml.Highlight.Ini

/-- The part of a line that is expected next. -/
inductive Expect where
  | key
  | sectionName
  | sectionEnd
  | delimiter
  | value
  deriving DecidableEq, Repr

/-- The characters that end a key. -/
def endsKey (c : Char) : Bool :=
  c == ' ' || c == '=' || c == '\n'

/-- The token that starts with `c` where a part of a line is expected. -/
def cut (expect : Expect) (c : Char) (rest : List Char) : Cut Expect :=
  match expect, c with
  | _, '\n' => ⟨.lineBreak, 0, .key⟩
  | .key, '[' => ⟨.sectionBracket, 0, .sectionName⟩
  | .sectionName, ']' => ⟨.sectionBracket, 0, .key⟩
  | .sectionName, _ =>
    ⟨.sectionName, lengthUntil (fun c => c == ']' || c == '\n') rest, .sectionEnd⟩
  | .sectionEnd, ']' => ⟨.sectionBracket, 0, .key⟩
  | .key, '#' => ⟨.comment, lengthOfLine rest, .key⟩
  | .key, ';' => ⟨.comment, lengthOfLine rest, .key⟩
  | _, ' ' => ⟨.whitespace, lengthOfBlanks rest, expect⟩
  | _, '\t' => ⟨.whitespace, lengthOfBlanks rest, expect⟩
  | .key, _ => ⟨.key, lengthUntil endsKey rest, .delimiter⟩
  | .delimiter, '=' => ⟨.delimiter, 0, .value⟩
  | .delimiter, ':' => ⟨.delimiter, 0, .value⟩
  | _, _ => ⟨.value, lengthOfLine rest, .key⟩

/-- The lexer of INI files. -/
def lexer : Lexer := ⟨Expect, .key, cut⟩

/-! ## Reading -/

/-- Reads the next token where a part of a line is expected. -/
def nextToken (expect : Expect) (s : Scanner) : Option (Token × Expect × Scanner) := do
  let (c, s) ← s.nextChar
  return (
    if c = '\n' then s.one c .lineBreak .key
    else if expect = .key && c = '[' then s.one c .sectionBracket .sectionName
    else if expect = .sectionName && c != ']' then
      s.upTo c (fun c => c == ']' || c == '\n') .sectionName .sectionEnd
    else if (expect = .sectionName || expect = .sectionEnd) && c = ']' then
      s.one c .sectionBracket .key
    else if expect = .key && (c = '#' || c = ';') then s.upTo c isBreak .comment expect
    else if isBlank c then s.upTo c (!isBlank ·) .whitespace expect
    else if expect = .key then s.upTo c endsKey .key .delimiter
    else if expect = .delimiter && (c = '=' || c = ':') then s.one c .delimiter .value
    else s.upTo c isBreak .value .key)

/-- The tokenizer of INI files. -/
def tokenizer : Tokenizer := ⟨Expect, .key, nextToken⟩

end WikiHtml.Highlight.Ini
