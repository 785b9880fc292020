-- Ages never go back. They are counted with days of the year, which are one ahead after February in a
-- leap year, in years of 365 days: the day that a leap year has more is passed over at its end.
import Mathlib.Algebra.Order.Field.Basic
import Mathlib.Algebra.Order.Field.Rat
import Mathlib.Tactic.FieldSimp
import Mathlib.Tactic.Linarith
import Mathlib.Tactic.NormNum
import WikiHtml.Contact.Card
import WikiHtml.Proofs.Calendar.Days
import WikiHtml.Proofs.Text.Integer

namespace WikiHtml.Calendar

/-- The age in years, exactly. -/
def exactAge (birth day : Date) : Rat :=
  ageDays birth day / 365

/-! ## Counting -/

/-- A year that is given back gives back 365 days, so it does not matter whether there was one. -/
theorem ageDays_eq (birth day : Date) :
    ageDays birth day = 365 * (day.year - birth.year) + ((day.ordinal : Int) - birth.ordinal) := by
  unfold ageDays
  dsimp only
  split <;> omega

theorem ordinal_le (d : Date) : d.ordinal ≤ 366 := by
  have hlast := d.ordinal_bounds.2
  unfold Date.daysInYear at hlast
  split at hlast <;> omega

theorem year_le_of_number_le {day later : Date} (h : day.number ≤ later.number) :
    day.year ≤ later.year := by
  by_contra hlt
  have hyears := Date.daysBeforeYear_le (show later.year + 1 ≤ day.year by omega)
  obtain ⟨hfirst, _⟩ := day.ordinal_bounds
  obtain ⟨_, hlast⟩ := later.ordinal_bounds
  rw [Date.daysBeforeYear_succ] at hyears
  unfold Date.number at h
  omega

theorem ageDays_le (birth : Date) {day later : Date} (h : day.number ≤ later.number) :
    ageDays birth day ≤ ageDays birth later := by
  rw [ageDays_eq, ageDays_eq]
  rcases Int.lt_or_eq_of_le (year_le_of_number_le h) with hyear | hyear
  · -- The last day of a year has at most the number 366, the first of a later one the number 1.
    have hlast := ordinal_le day
    obtain ⟨hfirst, _⟩ := later.ordinal_bounds
    omega
  · unfold Date.number at h
    rw [hyear] at h ⊢
    omega

/-! ## Rounding -/

/-- The tenths of a year that are nearest to some days. -/
def tenthsOf (days : Int) : Nat :=
  (2 * (10 * days.natAbs) + 365) / 730

theorem yearsText_eq (days : Int) : yearsText days =
    (if days < 0 then "-" else "") ++ toString (tenthsOf days / 10) ++ "," ++
      toString (tenthsOf days % 10) :=
  rfl

/-- Nothing lies halfway between two tenths: ten times the days are even halves, and 365 is odd. -/
theorem tenthsOf_near (days : Int) :
    2 * |10 * (days.natAbs : Int) - 365 * (tenthsOf days : Int)| < 365 := by
  unfold tenthsOf
  rw [abs_eq_max_neg]
  omega

theorem abs_exactAge (birth day : Date) :
    |exactAge birth day| = ((ageDays birth day).natAbs : Rat) / 365 := by
  rw [exactAge, abs_div, Nat.cast_natAbs, Int.cast_abs]
  norm_num

theorem exactAge_near_tenths (birth day : Date) :
    |10 * |exactAge birth day| - tenthsOf (ageDays birth day)| < 1 / 2 := by
  have hnear := tenthsOf_near (ageDays birth day)
  generalize tenthsOf (ageDays birth day) = n at hnear ⊢
  have hcast : 2 * |10 * ((ageDays birth day).natAbs : Rat) - 365 * n| < 365 := by
    exact_mod_cast hnear
  have hscale : 10 * |exactAge birth day| - n =
      (10 * ((ageDays birth day).natAbs : Rat) - 365 * n) / 365 := by
    rw [abs_exactAge]
    field_simp
  rw [hscale, abs_div, abs_of_pos (show (0 : Rat) < 365 by norm_num), div_lt_iff₀ (by norm_num)]
  linarith

/-! ## Birthdays -/

theorem daysInMonth_eq (year : Int) (month : Nat) :
    daysInMonth year month = daysInMonth 1 month + if month = 2 ∧ isLeap year then 1 else 0 := by
  have hcommon : isLeap 1 = false := by decide
  by_cases hm : month = 2
  · subst hm
    cases hleap : isLeap year <;> simp [daysInMonth, hleap, hcommon]
  · unfold daysInMonth
    split
    · exact absurd rfl hm
    all_goals simp [hm]

/-- From March on, a leap year is one day ahead of the year one. -/
theorem daysBeforeMonth_eq (year : Int) {month : Nat} (h : 1 ≤ month) :
    Date.daysBeforeMonth year month =
      Date.daysBeforeMonth 1 month + if 2 < month ∧ isLeap year then 1 else 0 := by
  induction month, h using Nat.le_induction with
  | base => simp [Date.daysBeforeMonth]
  | succ month hpos ih =>
    rw [Date.daysBeforeMonth_succ year hpos, Date.daysBeforeMonth_succ 1 hpos, ih,
      daysInMonth_eq year month]
    rcases hleap : isLeap year with _ | _
    · simp
    · simp only [and_true]
      split <;> split <;> split <;> omega

/-- The same day and month are at most one day of the year apart, and not at all in the same year. -/
theorem ordinal_of_birthday {birth day : Date} (hm : day.month = birth.month)
    (hd : day.day = birth.day) :
    (day.ordinal : Int) - birth.ordinal ≤ 1 ∧ (birth.ordinal : Int) - day.ordinal ≤ 1 ∧
      (day.year = birth.year → day.ordinal = birth.ordinal) := by
  have hpos : 1 ≤ birth.month := birth.isDay.2.2.1
  unfold Date.ordinal
  rw [hm, hd, daysBeforeMonth_eq day.year hpos, daysBeforeMonth_eq birth.year hpos]
  refine ⟨?_, ?_, fun hy => by rw [hy]⟩ <;> split <;> split <;> omega

/-- A day more or less is not seen in the tenths. -/
theorem yearsText_of_years {years off : Int} (h : off ≤ 1) (h' : -1 ≤ off)
    (hzero : years = 0 → off = 0) : yearsText (365 * years + off) = toString years ++ ",0" := by
  have htenths : tenthsOf (365 * years + off) = 10 * years.natAbs := by
    unfold tenthsOf
    omega
  have hwhole : 10 * years.natAbs / 10 = years.natAbs := by omega
  have hrest : 10 * years.natAbs % 10 = 0 := by omega
  rw [yearsText_eq, htenths, hwhole, hrest]
  have hsign : 365 * years + off < 0 ↔ years < 0 := by omega
  simp only [hsign, Text.toString_eq years, String.append_assoc]
  rfl

theorem ageText_of_birthday {birth day : Date} (hm : day.month = birth.month)
    (hd : day.day = birth.day) : ageText birth day = toString (day.year - birth.year) ++ ",0" := by
  obtain ⟨hlate, hearly, hsame⟩ := ordinal_of_birthday hm hd
  rw [ageText, ageDays_eq]
  refine yearsText_of_years hlate (by omega) fun hyears => ?_
  rw [hsame (by omega), Int.sub_self]

/-! ## Ages -/

/-- Ages never go back from a day to a later one. What is shown is the nearest tenth, which there
always is, and on the day and month of the birthday it is a whole number: the years since then. -/
theorem ages_never_go_back_and_are_whole_on_birthdays (birth : Date) :
    (∀ day later : Date, day.number ≤ later.number →
      exactAge birth day ≤ exactAge birth later) ∧
    (∀ day : Date, ∃ tenths : Nat, |10 * |exactAge birth day| - tenths| < 1 / 2 ∧
      ageText birth day = (if exactAge birth day < 0 then "-" else "") ++
        toString (tenths / 10) ++ "," ++ toString (tenths % 10)) ∧
    ∀ day : Date, day.month = birth.month → day.day = birth.day →
      ageText birth day = toString (day.year - birth.year) ++ ",0" ∧
      ∀ text, Date.parse? text = some birth →
        Contact.age? day text none = some (toString (day.year - birth.year) ++ ",0") := by
  refine ⟨fun day later h => ?_, fun day => ?_, fun day hm hd => ?_⟩
  · have hdays : (ageDays birth day : Rat) ≤ ageDays birth later := by
      exact_mod_cast ageDays_le birth h
    exact div_le_div_of_nonneg_right hdays (by norm_num)
  · refine ⟨tenthsOf (ageDays birth day), exactAge_near_tenths birth day, ?_⟩
    have hsign : exactAge birth day < 0 ↔ ageDays birth day < 0 := by
      rw [exactAge, div_lt_iff₀ (by norm_num), zero_mul]
      exact_mod_cast Iff.rfl
    rw [ageText, yearsText_eq]
    simp only [hsign]
  · have htext := ageText_of_birthday hm hd
    refine ⟨htext, fun text hb => ?_⟩
    rw [Contact.age?, hb, ← htext]
    rfl

/-- The last day of a leap year, which is the 366th. -/
def lastOfLeapYear : Date :=
  ⟨2000, 12, 31, by decide⟩

/-- The last day of the year after it, which is the 365th. -/
def lastOfNextYear : Date :=
  ⟨2001, 12, 31, by decide⟩

theorem the_last_days_of_two_years_are_a_year_apart :
    lastOfLeapYear.number ≤ lastOfNextYear.number ∧
      exactAge lastOfLeapYear lastOfLeapYear ≤ exactAge lastOfLeapYear lastOfNextYear ∧
      lastOfNextYear.month = lastOfLeapYear.month ∧ lastOfNextYear.day = lastOfLeapYear.day ∧
      Date.parse? "31.12.2000" = some lastOfLeapYear ∧
      Contact.age? lastOfNextYear "31.12.2000" none = some "1,0" := by
  have hread : Date.parse? "31.12.2000" = some lastOfLeapYear := by decide +kernel
  have hlater : lastOfLeapYear.number ≤ lastOfNextYear.number := by decide
  obtain ⟨hforward, _, hwhole⟩ := ages_never_go_back_and_are_whole_on_birthdays lastOfLeapYear
  exact ⟨hlater, hforward _ _ hlater, rfl, rfl, hread, (hwhole lastOfNextYear rfl rfl).2 _ hread⟩

end WikiHtml.Calendar
