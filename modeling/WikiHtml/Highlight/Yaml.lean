-- The lexer of YAML, line by line: keys, values, comments, and block scalars, which go on as long
-- as the lines are indented deeper than their key.
import WikiHtml.Highlight.Scanner

namespace WikiHtml.Highlight.Yaml

/-- The part of a line that is expected next. -/
inductive Expect where
  | key
  | colon
  | value
  | comment
  | multilineText
  deriving DecidableEq, Repr

/-- What is expected, the column of the next character, and the column of the last key; columns
count from zero. -/
structure State where
  expect : Expect
  column : Nat
  keyColumn : Nat
  deriving DecidableEq, Repr

/-- The column of the first character after blanks and blank lines, if there is one. -/
def firstColumn (column : Nat) : List Char → Option Nat
  | [] => none
  | c :: rest =>
    if c = '\n' then firstColumn 0 rest
    else if isBlank c then firstColumn (column + 1) rest
    else some column

/-- Whether a block scalar goes on after its line: the next line that is not blank is indented
deeper than the key, or there is none. -/
def blockContinues (keyColumn : Nat) (afterLine : List Char) : Bool :=
  match firstColumn 0 afterLine.tail with
  | none => true
  | some column => keyColumn < column

/-- A token on the line of `s` after which `expect` holds. -/
def State.advance (s : State) (kind : TokenKind) (more : Nat) (expect : Expect) : Cut State :=
  ⟨kind, more, { s with expect := expect, column := s.column + more + 1 }⟩

/-- A line of a block scalar. -/
def cutBlockLine (s : State) (rest : List Char) : Cut State :=
  let more := lengthOfLine rest
  let expect := if blockContinues s.keyColumn (rest.drop more) then .multilineText else .key
  s.advance .multilineText more expect

/-- The token that starts with `c`. -/
def cut (s : State) (c : Char) (rest : List Char) : Cut State :=
  if c = '\n' then
    let expect := if s.expect = .multilineText then .multilineText else .key
    ⟨.lineBreak, 0, { s with expect := expect, column := 0 }⟩
  else if s.expect = .key && c = '-' then
    if "--".toList.isPrefixOf rest then s.advance .documentSeparator 2 .comment
    else s.advance .specialCharacter 0 .key
  else if s.expect = .comment || (s.expect = .key && c = '#') then
    s.advance .comment (lengthOfLine rest) .key
  else if s.expect = .multilineText then cutBlockLine s rest
  else if c = ':' then s.advance .specialCharacter 0 .value
  else if isBlank c then s.advance .whitespace (lengthOfBlanks rest) s.expect
  else if s.expect = .key then
    { s with keyColumn := s.column }.advance .key
      (lengthUntil (fun c => c == ':' || c == '\n') rest) .colon
  else if s.expect = .value && (c = '>' || c = '|') then cutBlockLine s rest
  else s.advance .value (lengthOfLine rest) .key

/-- The lexer of YAML. -/
def lexer : Lexer := ⟨State, ⟨.key, 0, 0⟩, cut⟩

/-! ## Reading -/

/-- What is expected, and the column of the last key. -/
structure Reading where
  expect : Expect
  keyIndent : Nat
  deriving DecidableEq, Repr

/-- Whether the first character after blanks and blank lines, if there is one, stands behind the column
of the key. -/
def isDeeper (keyIndent column : Nat) : List Char → Bool
  | [] => true
  | c :: rest =>
    if c = '\n' then isDeeper keyIndent 0 rest
    else if isBlank c then isDeeper keyIndent (column + 1) rest
    else keyIndent < column

/-- Reads the rest of a line of a block scalar, and finds out whether it goes on after it. -/
def multilineText (r : Reading) (c : Char) (s : Scanner) : Token × Reading × Scanner :=
  let (text, s) := s.takeUntil c isBreak
  let goesOn := isDeeper r.keyIndent 0 (s.rest.drop 1)
  (.of .multilineText text, { r with expect := if goesOn then .multilineText else .key }, s)

/-- Reads the next token. -/
def nextToken (r : Reading) (s : Scanner) : Option (Token × Reading × Scanner) := do
  let (c, s) ← s.nextChar
  return (
    if c = '\n' then
      s.one c .lineBreak
        { r with expect := if r.expect != .multilineText then .key else r.expect }
    else if r.expect = .key && c = '-' then
      if (s.eat "--").1 then
        Scanner.token .documentSeparator { r with expect := .comment } ("---", (s.eat "--").2)
      else s.one c .specialCharacter r
    else if (r.expect = .key && c = '#') || r.expect = .comment then
      s.upTo c isBreak .comment { r with expect := .key }
    else if r.expect = .multilineText then multilineText r c s
    else if c = ':' then s.one c .specialCharacter { r with expect := .value }
    else if isBlank c then s.upTo c (!isBlank ·) .whitespace r
    else if r.expect = .key then
      s.upTo c (fun c => c == ':' || c == '\n') .key ⟨.colon, s.column - 1⟩
    else if r.expect = .value && (c = '>' || c = '|') then multilineText r c s
    else s.upTo c isBreak .value { r with expect := .key })

/-- The tokenizer of YAML. -/
def tokenizer : Tokenizer := ⟨Reading, ⟨.key, 0⟩, nextToken⟩

end WikiHtml.Highlight.Yaml
