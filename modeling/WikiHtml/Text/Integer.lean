-- Whole numbers as text: an optional sign and decimal digits, within a range.

namespace WikiHtml.Text

/-- The natural number of a run of decimal digits that is not empty. -/
def natural? (s : List Char) : Option Nat :=
  if s ≠ [] ∧ s.all Char.isDigit then
    some (s.foldl (fun value c => value * 10 + (c.toNat - '0'.toNat)) 0)
  else none

/-- The number of a text from `least` to `greatest`. A minus sign may stand only where the range
goes below zero. -/
def integer? (least greatest : Int) (s : List Char) : Option Int :=
  let value : Option Int :=
    match s with
    | '+' :: digits => (natural? digits).map Int.ofNat
    | '-' :: digits => if least < 0 then (natural? digits).map fun n => -(n : Int) else none
    | digits => (natural? digits).map Int.ofNat
  value.filter fun n => least ≤ n && n ≤ greatest

/-- The number of a text, if it fits into so many bits with a sign. -/
def signed? (bits : Nat) : List Char → Option Int :=
  let limit := Int.ofNat (Nat.pow 2 (bits - 1))
  integer? (-limit) (limit - 1)

/-- The number of a text, if it fits into so many bits without a sign. -/
def unsigned? (bits : Nat) (s : List Char) : Option Nat :=
  (integer? 0 (Int.ofNat (Nat.pow 2 bits) - 1) s).map Int.toNat

/-- A natural number as text, filled up from the left to a width. -/
def padded (fill : Char) (width n : Nat) : String :=
  let digits := (Nat.toDigits 10 n)
  String.ofList (List.replicate (width - digits.length) fill ++ digits)

end WikiHtml.Text
