-- Ages: the years between two days as tenths of a year, where the days since the last birthday
-- count as parts of a year of 365 days.
import WikiHtml.Calendar.Date

namespace WikiHtml.Calendar

/-- The days of an age, with 365 of them for each year. -/
def ageDays (birth day : Date) : Int :=
  let years := day.year - birth.year
  let days := (day.ordinal : Int) - birth.ordinal
  if days < 0 then 365 * (years - 1) + (days + 365) else 365 * years + days

/-- Years of 365 days, rounded to the nearest tenth of a year, with a comma before the tenth. -/
def yearsText (days : Int) : String :=
  let tenths := (2 * (10 * days.natAbs) + 365) / 730
  let sign := if days < 0 then "-" else ""
  sign ++ toString (tenths / 10) ++ "," ++ toString (tenths % 10)

/-- The age on a day. -/
def ageText (birth day : Date) : String :=
  yearsText (ageDays birth day)

end WikiHtml.Calendar
