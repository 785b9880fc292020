-- Dates of which some parts may be unknown.
import WikiHtml.Calendar.Date

namespace WikiHtml.Calendar

/-- A date with the parts that are known. The parts need not name a day. -/
structure PartialDate where
  day : Option Nat
  month : Option Nat
  year : Option Int
  deriving DecidableEq, Repr

namespace PartialDate

/-- The partial date of a day. -/
def ofDate (d : Date) : PartialDate :=
  ⟨some d.day, some d.month, some d.year⟩

/-! ## Text -/

/-- Splits off the part before the first point; without a point there is no rest. -/
def splitPoint (s : List Char) : List Char × Option (List Char) :=
  match s.dropWhile (· != '.') with
  | [] => (s, none)
  | _ :: rest => (s.takeWhile (· != '.'), some rest)

/-- The year of a part, which may be empty. -/
def year? (s : List Char) : Option (Option Int) :=
  if s = [] then some none else (Text.signed? 32 s).map some

/-- The number of a day or month. -/
def part? (s : List Char) : Option Nat :=
  Text.unsigned? 8 s

/-- The date of a word: a year, a month and a year, or all three, with points between them. -/
def ofWord? (s : List Char) : Option PartialDate :=
  match splitPoint s with
  | (year, none) => do return ⟨none, none, ← year? year⟩
  | (first, some rest) =>
    match splitPoint rest with
    | (year, none) => do return ⟨none, some (← part? first), ← year? year⟩
    | (month, some year) => do return ⟨some (← part? first), some (← part? month), ← year? year⟩

/-- The date of the first word of a text. Words are separated by spaces. -/
def parse? (text : String) : Option PartialDate :=
  ofWord? ((text.toList.dropWhile (· == ' ')).takeWhile (· != ' '))

/-- A day or month with its point. -/
def shownPart : Option Nat → String
  | some n => Text.padded '0' 2 n ++ "."
  | none => ""

/-- The date as text. -/
def shown (d : PartialDate) : String :=
  shownPart d.day ++ shownPart d.month ++
    (match d.year with
    | some year => toString year
    | none => "")

/-! ## Order -/

/-- The same day and month in another year. -/
def withYear (d : PartialDate) (year : Int) : PartialDate :=
  { d with year := some year }

/-- The order of two dates. Years count only if both are known, and a day or month that is not
known counts as the first. -/
def compare (a b : PartialDate) : Ordering :=
  let years := match a.year, b.year with
    | some x, some y => Ord.compare x y
    | _, _ => .eq
  years.then ((Ord.compare (a.month.getD 1) (b.month.getD 1)).then
    (Ord.compare (a.day.getD 1) (b.day.getD 1)))

end PartialDate

end WikiHtml.Calendar
