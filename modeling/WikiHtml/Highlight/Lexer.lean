-- Tokens of a code block, and the lexers that cut a text into them. A lexer says of each token only
-- what it is and how long; that the tokenizers, which put the texts of tokens together themselves, read
-- the same tokens is proved.

namespace WikiHtml.Highlight

/-- What a token is. The languages share the kinds, each has those that it needs. -/
inductive TokenKind where
  | any
  | attributeName
  | attributeValue
  | comment
  | delimiter
  | documentSeparator
  | escapedCharacter
  | identifier
  | key
  | keyword
  | lineBreak
  | multilineText
  | sectionBracket
  | sectionName
  | specialCharacter
  | string
  | tag
  | text
  | value
  | whitespace
  deriving DecidableEq, Repr

/-- A piece of a code block. -/
structure Token where
  kind : TokenKind
  text : List Char
  deriving DecidableEq, Repr

/-- What a lexer decides at a character: the kind of the token that starts there, how many
characters belong to it after the first one, and the state after it. -/
structure Cut (State : Type) where
  kind : TokenKind
  more : Nat
  next : State

/-- A state machine that cuts the text at each character it is asked about. -/
structure Lexer where
  State : Type
  start : State
  cut : State → Char → List Char → Cut State

/-- The tokens of a text that the lexer reads from the given state on. -/
def Lexer.tokensFrom (l : Lexer) (s : l.State) : List Char → List Token
  | [] => []
  | c :: rest =>
    let cut := l.cut s c rest
    ⟨cut.kind, c :: rest.take cut.more⟩ :: l.tokensFrom cut.next (rest.drop cut.more)
termination_by text => text.length
decreasing_by
  simp only [List.length_drop, List.length_cons]
  omega

/-- The text that a lexer reads: every line break is a single line feed. -/
def withoutReturns (text : List Char) : List Char :=
  text.filter (· != '\r')

/-- The tokens of a code block. -/
def Lexer.tokens (l : Lexer) (text : List Char) : List Token :=
  l.tokensFrom l.start (withoutReturns text)

/-! ## Lengths -/

/-- How many characters stand before the first one that stops a token. -/
def lengthUntil (stop : Char → Bool) (text : List Char) : Nat :=
  (text.takeWhile (!stop ·)).length

/-- A space or a tab. -/
def isBlank (c : Char) : Bool :=
  c == ' ' || c == '\t'

/-- How many characters are left on the line. -/
def lengthOfLine (text : List Char) : Nat :=
  lengthUntil (· == '\n') text

/-- How many spaces and tabs follow. -/
def lengthOfBlanks (text : List Char) : Nat :=
  lengthUntil (!isBlank ·) text

end WikiHtml.Highlight
