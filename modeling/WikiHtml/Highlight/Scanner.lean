-- A cursor over the characters of a code block, and tokenizers, which read tokens from it. The texts of
-- tokens are put together character by character, and a look ahead is put back.
import WikiHtml.Highlight.Lexer

namespace WikiHtml.Highlight

/-- A cursor over the characters of a code block, with the index of the next one. -/
structure Scanner where
  chars : Array Char
  pos : Nat

namespace Scanner

/-- A cursor at the start of a code block. Every line break is a single line feed. -/
def new (code : String) : Scanner :=
  ⟨(withoutReturns code.toList).toArray, 0⟩

/-- Reads the next character. -/
def nextChar (s : Scanner) : Option (Char × Scanner) :=
  match s.chars[s.pos]? with
  | some c => some (c, { s with pos := s.pos + 1 })
  | none => none

/-- Puts back the character that was read last. -/
def unread (s : Scanner) : Scanner :=
  { s with pos := s.pos - 1 }

/-- The next character, which is not read. -/
def peek (s : Scanner) : Option Char :=
  s.chars[s.pos]?

/-- Whether the characters from an index on start with those of a mark. -/
def startsAt (s : Scanner) : List Char → Nat → Bool
  | [], _ => true
  | c :: mark, index => s.chars[index]? == some c && s.startsAt mark (index + 1)

/-- Whether a mark comes next. -/
def isAt (s : Scanner) (mark : String) : Bool :=
  s.startsAt mark.toList s.pos

/-- Reads a mark if it comes next, and tells whether it does. -/
def eat (s : Scanner) (mark : String) : Bool × Scanner :=
  if s.isAt mark then (true, { s with pos := s.pos + mark.length }) else (false, s)

/-- How many characters are left. -/
def left (s : Scanner) : Nat :=
  s.chars.size - s.pos

theorem left_lt {s s' : Scanner} {c : Char} (h : s.nextChar = some (c, s')) : s'.left < s.left := by
  unfold nextChar at h
  split at h
  · rename_i hget
    obtain ⟨hlt, -⟩ := Array.getElem?_eq_some_iff.mp hget
    obtain ⟨-, rfl⟩ := Prod.mk.inj (Option.some.inj h)
    simp only [left]
    omega
  · cases h

/-- Reads on from a text, up to a character that stops, which is put back, or up to the end. -/
def readUntil (stop : Char → Bool) (text : String) (s : Scanner) : String × Scanner :=
  match _ : s.nextChar with
  | none => (text, s)
  | some (c, s') => if stop c then (text, s'.unread) else readUntil stop (text.push c) s'
termination_by s.left
decreasing_by exact left_lt ‹_›

/-- The text from a character, which was read, up to one that stops. -/
def takeUntil (s : Scanner) (first : Char) (stop : Char → Bool) : String × Scanner :=
  readUntil stop (String.singleton first) s

/-- The index behind the last line break before an index. -/
def lineStart (s : Scanner) : Nat → Nat
  | 0 => 0
  | index + 1 => if s.chars[index]? == some '\n' then index + 1 else s.lineStart index

/-- The column of the next character, counted from zero. -/
def column (s : Scanner) : Nat :=
  s.pos - s.lineStart s.pos

/-- The characters that are not read yet. -/
def rest (s : Scanner) : List Char :=
  s.chars.toList.drop s.pos

end Scanner

/-! ## Tokens -/

/-- A token with its text. -/
def Token.of (kind : TokenKind) (text : String) : Token :=
  ⟨kind, text.toList⟩

/-- What stops at the end of a line. -/
def isBreak (c : Char) : Bool :=
  c == '\n'

section

variable {State : Type}

/-- A token of a text that was read, and the state after it. -/
def Scanner.token (kind : TokenKind) (next : State) (read : String × Scanner) :
    Token × State × Scanner :=
  (.of kind read.1, next, read.2)

/-- A token of the character that was read last. -/
def Scanner.one (s : Scanner) (c : Char) (kind : TokenKind) (next : State) :
    Token × State × Scanner :=
  token kind next (String.singleton c, s)

/-- A token from the character that was read last up to one that stops. -/
def Scanner.upTo (s : Scanner) (c : Char) (stop : Char → Bool) (kind : TokenKind) (next : State) :
    Token × State × Scanner :=
  token kind next (s.takeUntil c stop)

end

/-! ## Tokenizers -/

/-- A state machine that reads one token after the other from a cursor. -/
structure Tokenizer where
  State : Type
  start : State
  nextToken : State → Scanner → Option (Token × State × Scanner)

namespace Tokenizer

/-- A tokenizer at work, with the tokens so far. -/
structure Progress (t : Tokenizer) where
  state : t.State
  scanner : Scanner
  tokens : Array Token

/-- Reads one more token, or ends with those that there are. -/
def turn (t : Tokenizer) (p : t.Progress) : Option (t.Progress ⊕ Array Token) :=
  match t.nextToken p.state p.scanner with
  | some (token, state, scanner) => some (.inl ⟨state, scanner, p.tokens.push token⟩)
  | none => some (.inr p.tokens)

/-- Reads tokens until there are no more. A tokenizer that never stops has no result. -/
def run (t : Tokenizer) (p : t.Progress) : Option (Array Token) :=
  repeatM t.turn p

/-- The tokens of a code block. -/
def tokens? (t : Tokenizer) (code : String) : Option (List Token) :=
  (t.run ⟨t.start, .new code, #[]⟩).map Array.toList

end Tokenizer

end WikiHtml.Highlight
