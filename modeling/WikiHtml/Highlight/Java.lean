-- The lexer of Java source code: comments, literals and words.
import WikiHtml.Highlight.Scanner
import WikiHtml.Unicode.Class

namespace WikiHtml.Highlight.Java

/-- Where the lexer is between two tokens. -/
inductive Place where
  | code
  | blockComment
  deriving DecidableEq, Repr

/-- The words that are shown as keywords. -/
def keywords : List String :=
  ["return", "if", "else", "switch", "case", "default", "for", "while", "do", "break", "continue",
   "try", "catch", "finally", "throw", "new", "instanceof", "void", "public", "protected",
   "private", "static", "final", "class", "interface"]

/-- The characters of words. -/
def isWordChar (c : Char) : Bool :=
  Unicode.isAlphanumeric c || c == '_' || c == '$'

/-- How many characters of a line belong to a block comment, and where the lexer is after them. -/
def commentPart : List Char → Nat × Place
  | [] => (0, .blockComment)
  | '\n' :: _ => (0, .blockComment)
  | '*' :: '/' :: _ => (2, .code)
  | _ :: rest =>
    let part := commentPart rest
    (part.1 + 1, part.2)

/-- How many characters belong to a literal after its opening quote: all up to the closing quote,
or to the end of the line. A backslash keeps the next character of the line from closing it. -/
def literalLength (quote : Char) : List Char → Nat
  | [] => 0
  | '\n' :: _ => 0
  | '\\' :: rest =>
    match rest with
    | [] => 1
    | '\n' :: _ => 1
    | _ :: tail => literalLength quote tail + 2
  | c :: rest => if c = quote then 1 else literalLength quote rest + 1

/-- The token that starts with `c`. -/
def cut (place : Place) (c : Char) (rest : List Char) : Cut Place :=
  if c = '\n' then ⟨.lineBreak, 0, place⟩
  else if place = .blockComment then
    let part := commentPart (c :: rest)
    ⟨.comment, part.1 - 1, part.2⟩
  else if c = '/' && rest.head? = some '*' then
    let part := commentPart rest.tail
    ⟨.comment, part.1 + 1, part.2⟩
  else if c = '/' && rest.head? = some '/' then ⟨.comment, lengthOfLine rest, .code⟩
  else if c = '"' || c = '\'' then ⟨.string, literalLength c rest, .code⟩
  else if isWordChar c then
    let more := lengthUntil (!isWordChar ·) rest
    let kind := if String.ofList (c :: rest.take more) ∈ keywords then .keyword else .identifier
    ⟨kind, more, .code⟩
  else ⟨.any, 0, .code⟩

/-- The lexer of Java source code. -/
def lexer : Lexer := ⟨Place, .code, cut⟩

/-! ## Reading -/

/-- Reads the rest of the line of a block comment, and tells where the reader is then. -/
def blockComment (text : String) (s : Scanner) : String × Place × Scanner :=
  match _ : s.nextChar with
  | none => (text, .blockComment, s)
  | some (c, s') =>
    if c = '\n' then (text, .blockComment, s'.unread)
    else
      let text := text.push c
      if c = '*' && (s'.eat "/").1 then (text.push '/', .code, (s'.eat "/").2)
      else blockComment text s'
termination_by s.left
decreasing_by exact Scanner.left_lt ‹_›

/-- Reads a literal up to its closing quote, or up to the end of the line. -/
def literal (quote : Char) (text : String) (s : Scanner) : String × Scanner :=
  match _ : s.nextChar with
  | none => (text, s)
  | some (c, s') =>
    if c = '\n' then (text, s'.unread)
    else if c = '\\' then
      let text := text.push c
      if s'.peek = some '\n' then literal quote text s'
      else
        match _ : s'.nextChar with
        | none => literal quote text s'
        | some (escaped, s'') => literal quote (text.push escaped) s''
    else
      let text := text.push c
      if c = quote then (text, s') else literal quote text s'
termination_by s.left
decreasing_by
  · exact Scanner.left_lt ‹_›
  · exact Scanner.left_lt ‹_›
  · exact Nat.lt_trans (Scanner.left_lt ‹_›) (Scanner.left_lt ‹_›)
  · exact Scanner.left_lt ‹_›

/-- A line of a block comment. -/
def commentToken (read : String × Place × Scanner) : Token × Place × Scanner :=
  (.of .comment read.1, read.2.1, read.2.2)

/-- Reads the next token. -/
def nextToken (place : Place) (s : Scanner) : Option (Token × Place × Scanner) := do
  let (c, s) ← s.nextChar
  return (
    if c = '\n' then s.one c .lineBreak place
    else if place = .blockComment then commentToken (blockComment "" s.unread)
    else if c = '/' && (s.eat "*").1 then commentToken (blockComment "/*" (s.eat "*").2)
    else if c = '/' && s.peek = some '/' then s.upTo c isBreak .comment place
    else if c = '"' || c = '\'' then Scanner.token .string place (literal c (String.singleton c) s)
    else if isWordChar c then
      let (word, s) := s.takeUntil c (!isWordChar ·)
      (.of (if word ∈ keywords then .keyword else .identifier) word, place, s)
    else s.one c .any place)

/-- The tokenizer of Java source code. -/
def tokenizer : Tokenizer := ⟨Place, .code, nextToken⟩

end WikiHtml.Highlight.Java
