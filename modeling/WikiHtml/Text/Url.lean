-- Percent encoding of URLs and of query parameters.

namespace WikiHtml.Text

/-- The digit of a hexadecimal number below sixteen. -/
def hexDigit (n : Nat) : Char :=
  if n < 10 then Char.ofNat ('0'.toNat + n) else Char.ofNat ('A'.toNat + (n - 10))

/-- A byte as an escape of a URL. -/
def percentByte (b : UInt8) : List Char :=
  ['%', hexDigit (b.toNat / 16), hexDigit (b.toNat % 16)]

/-- A character of a URL: a space becomes a plus sign, a character that is `kept` stays, and of
any other one each byte of its UTF-8 form is escaped. -/
def percentChar (kept : Char → Bool) (c : Char) : List Char :=
  if c = ' ' then ['+']
  else if kept c then [c]
  else (String.utf8EncodeChar c).flatMap percentByte

/-- The characters that keep their meaning in a whole URL. -/
def keptInUrl (c : Char) : Bool :=
  c.isAlphanum || "-_.!~*'()/?&=#%".toList.contains c

/-- The characters that stand for themselves in a query parameter. -/
def keptInParameter (c : Char) : Bool :=
  c.isAlphanum || "-_.*".toList.contains c

/-- A whole URL with all that may not stand in one escaped. Escapes that it holds already stay. -/
def encodeUrl (s : String) : String :=
  String.ofList (s.toList.flatMap (percentChar keptInUrl))

/-- A name or value of a query parameter. -/
def encodeUrlParameter (s : String) : String :=
  String.ofList (s.toList.flatMap (percentChar keptInParameter))

end WikiHtml.Text
