-- Days of the Gregorian calendar, which is taken to hold at all times. A year zero exists; years
-- have at most four digits.
import WikiHtml.Text.Integer
import WikiHtml.Unicode.Class

namespace WikiHtml.Calendar

/-! ## Years and months -/

/-- Whether a year has a 29th of February. -/
def isLeap (year : Int) : Bool :=
  year % 4 == 0 && (year % 100 != 0 || year % 400 == 0)

/-- How many days a month has; months count from one. -/
def daysInMonth (year : Int) (month : Nat) : Nat :=
  match month with
  | 2 => if isLeap year then 29 else 28
  | 4 | 6 | 9 | 11 => 30
  | _ => 31

/-- The last year, before and after the year zero. -/
def lastYear : Int := 9999

/-- Whether year, month and day name a day. -/
def IsDay (year : Int) (month day : Nat) : Prop :=
  -lastYear ≤ year ∧ year ≤ lastYear ∧ 1 ≤ month ∧ month ≤ 12 ∧
    1 ≤ day ∧ day ≤ daysInMonth year month

instance (year : Int) (month day : Nat) : Decidable (IsDay year month day) := by
  unfold IsDay
  infer_instance

/-- A day. -/
structure Date where
  year : Int
  month : Nat
  day : Nat
  isDay : IsDay year month day
  deriving DecidableEq

namespace Date

/-- The day of year, month and day, if there is one. -/
def of? (year : Int) (month day : Nat) : Option Date :=
  if h : IsDay year month day then some ⟨year, month, day, h⟩ else none

/-! ## Counting days -/

/-- How many days of a year lie before a month. -/
def daysBeforeMonth (year : Int) (month : Nat) : Nat :=
  (List.range (month - 1)).foldl (fun days m => days + daysInMonth year (m + 1)) 0

/-- The number of a day in its year, from one. -/
def ordinal (d : Date) : Nat :=
  daysBeforeMonth d.year d.month + d.day

/-- How many days lie before a year, counted from the start of the year one. -/
def daysBeforeYear (year : Int) : Int :=
  let past := year - 1
  365 * past + past / 4 - past / 100 + past / 400

/-- The number of a day; the first day of the year one has the number one. -/
def number (d : Date) : Int :=
  daysBeforeYear d.year + d.ordinal

/-- The year of the day with a number. Four hundred years have 146097 days, so the first guess
is off by at most one. -/
def yearOf (number : Int) : Int :=
  let guess := number * 400 / 146097 + 1
  if number ≤ daysBeforeYear guess then guess - 1
  else if daysBeforeYear (guess + 1) < number then guess + 1
  else guess

/-- The month and the day in it for the number of a day from the first of the given months on. -/
def monthAndDay (year : Int) : List Nat → Nat → Nat × Nat
  | [], ordinal => (13, ordinal)
  | month :: later, ordinal =>
    if ordinal ≤ daysInMonth year month then (month, ordinal)
    else monthAndDay year later (ordinal - daysInMonth year month)

/-- The day with a number, if its year has at most four digits. -/
def ofNumber? (number : Int) : Option Date :=
  let year := yearOf number
  let (month, day) :=
    monthAndDay year [1, 2, 3, 4, 5, 6, 7, 8, 9, 10, 11, 12] (number - daysBeforeYear year).toNat
  of? year month day

/-- The day so many days later, or earlier if the count is negative. -/
def addDays? (d : Date) (days : Int) : Option Date :=
  ofNumber? (d.number + days)

/-- Whether a day lies before another. -/
def isBefore (a b : Date) : Bool :=
  a.year < b.year ||
    (a.year == b.year && (a.month < b.month || (a.month == b.month && a.day < b.day)))

/-! ## Weeks -/

/-- How many days of the week lie between Monday and the day. -/
def daysSinceMonday (d : Date) : Nat :=
  ((d.number - 1) % 7).toNat

/-- How many days of the week lie between Sunday and the day. -/
def daysSinceSunday (d : Date) : Nat :=
  (d.number % 7).toNat

/-- How many weeks a year has that belong to it because their Thursday lies in it. -/
def weeksInYear (year : Int) : Nat :=
  let january := daysBeforeYear year % 7
  if january == 3 || (january == 2 && isLeap year) then 53 else 52

/-- The year and the number of the week of a day, where a week belongs to the year of its
Thursday. -/
def isoWeek (d : Date) : Int × Nat :=
  let week := (d.ordinal + 9 - d.daysSinceMonday) / 7
  if week = 0 then (d.year - 1, weeksInYear (d.year - 1))
  else if week = 53 && weeksInYear d.year = 52 then (d.year + 1, 1)
  else (d.year, week)

/-! ## Dates as text -/

/-- Reads a number of one or two digits and the point after it. -/
def readShort : List Char → Option (Nat × List Char)
  | a :: '.' :: rest => (Text.natural? [a]).map (·, rest)
  | a :: b :: '.' :: rest => (Text.natural? [a, b]).map (·, rest)
  | _ => none

/-- The year of four digits after an optional sign. -/
def year? : List Char → Option Int
  | '+' :: digits => if digits.length = 4 then (Text.natural? digits).map Int.ofNat else none
  | '-' :: digits =>
    if digits.length = 4 then (Text.natural? digits).map fun n => -(n : Int) else none
  | digits => if digits.length = 4 then (Text.natural? digits).map Int.ofNat else none

/-- The day of a text with day, month and year, separated by points. -/
def parse? (text : String) : Option Date := do
  let (day, rest) ← readShort (Unicode.trim text.toList)
  let (month, rest) ← readShort rest
  of? (← year? rest) month day

end Date

end WikiHtml.Calendar
