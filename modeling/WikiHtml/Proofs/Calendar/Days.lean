-- Days and their numbers. Each day of the calendar has a number of its own, and each number from that
-- of the first day to that of the last day belongs to a day, so days can be counted on and back.
import Mathlib.Tactic.ByContra
import WikiHtml.Calendar.Date

namespace WikiHtml.Calendar.Date

/-! ## Years -/

/-- How many days a year has. -/
def daysInYear (year : Int) : Nat :=
  if isLeap year then 366 else 365

theorem daysBeforeYear_succ (year : Int) :
    daysBeforeYear (year + 1) = daysBeforeYear year + daysInYear year := by
  simp only [daysBeforeYear, daysInYear, isLeap, Bool.and_eq_true, beq_iff_eq, Bool.or_eq_true,
    bne_iff_ne]
  split <;> omega

theorem daysBeforeYear_le {year later : Int} (h : year ≤ later) :
    daysBeforeYear year ≤ daysBeforeYear later := by
  simp only [daysBeforeYear]
  omega

/-- A number belongs to the year that starts before it and does not end before it. -/
theorem yearOf_bounds (n : Int) :
    daysBeforeYear (yearOf n) < n ∧ n ≤ daysBeforeYear (yearOf n + 1) := by
  unfold yearOf
  dsimp only
  split
  · rename_i hearly
    refine ⟨?_, by simpa using hearly⟩
    simp only [daysBeforeYear] at hearly ⊢
    omega
  · split
    · rename_i _ hlate
      refine ⟨hlate, ?_⟩
      simp only [daysBeforeYear] at hlate ⊢
      omega
    · omega

theorem yearOf_eq {n year : Int} (h : daysBeforeYear year < n)
    (h' : n ≤ daysBeforeYear (year + 1)) : yearOf n = year := by
  obtain ⟨hb, hb'⟩ := yearOf_bounds n
  by_contra hne
  rcases Int.lt_or_gt_of_ne hne with hlt | hgt
  · have := daysBeforeYear_le (show yearOf n + 1 ≤ year from hlt)
    omega
  · have := daysBeforeYear_le (show year + 1 ≤ yearOf n from hgt)
    omega

/-! ## Months -/

theorem daysBeforeMonth_succ (year : Int) {month : Nat} (h : 1 ≤ month) :
    daysBeforeMonth year (month + 1) = daysBeforeMonth year month + daysInMonth year month := by
  obtain ⟨m, rfl⟩ := Nat.exists_eq_add_of_le' h
  simp [daysBeforeMonth, List.range_succ]

theorem daysBeforeMonth_mono (year : Int) {month later : Nat} (h : 1 ≤ month) (hl : month ≤ later) :
    daysBeforeMonth year month ≤ daysBeforeMonth year later := by
  induction hl with
  | refl => exact Nat.le_refl _
  | step hn ih =>
    rw [Nat.succ_eq_add_one, daysBeforeMonth_succ year (Nat.le_trans h hn)]
    omega

theorem daysInYear_eq (year : Int) : daysBeforeMonth year 13 = daysInYear year := by
  have hstart : daysBeforeMonth year 1 = 0 := rfl
  simp only [daysBeforeMonth_succ year (show 1 ≤ 1 by omega),
    daysBeforeMonth_succ year (show 1 ≤ 2 by omega),
    daysBeforeMonth_succ year (show 1 ≤ 3 by omega),
    daysBeforeMonth_succ year (show 1 ≤ 4 by omega),
    daysBeforeMonth_succ year (show 1 ≤ 5 by omega),
    daysBeforeMonth_succ year (show 1 ≤ 6 by omega),
    daysBeforeMonth_succ year (show 1 ≤ 7 by omega),
    daysBeforeMonth_succ year (show 1 ≤ 8 by omega),
    daysBeforeMonth_succ year (show 1 ≤ 9 by omega),
    daysBeforeMonth_succ year (show 1 ≤ 10 by omega),
    daysBeforeMonth_succ year (show 1 ≤ 11 by omega),
    daysBeforeMonth_succ year (show 1 ≤ 12 by omega), hstart, daysInMonth, daysInYear]
  split <;> rfl

/-- Going through the months from one on, one finds the month that a day lies in. -/
theorem monthAndDay_range (year : Int) {count month day : Nat} {found : Nat × Nat}
    (hm : 1 ≤ month) (hd : 1 ≤ day)
    (hlast : daysBeforeMonth year month + day ≤ daysBeforeMonth year (month + count))
    (hf : monthAndDay year (List.range' month count) day = found) :
    month ≤ found.1 ∧ found.1 < month + count ∧ 1 ≤ found.2 ∧
      found.2 ≤ daysInMonth year found.1 ∧
      daysBeforeMonth year found.1 + found.2 = daysBeforeMonth year month + day := by
  induction count generalizing month day with
  | zero =>
    rw [Nat.add_zero] at hlast
    omega
  | succ count ih =>
    have hsucc := daysBeforeMonth_succ year hm
    rw [List.range'_succ, monthAndDay] at hf
    split at hf
    · rename_i hin
      subst hf
      exact ⟨Nat.le_refl _, by omega, hd, hin, rfl⟩
    · rename_i hlater
      have hend : month + (count + 1) = month + 1 + count := by omega
      have hrest : daysBeforeMonth year (month + 1) + (day - daysInMonth year month) ≤
          daysBeforeMonth year (month + 1 + count) := by
        rw [← hend]
        omega
      obtain ⟨hle, hlt, hpos, hlen, hsum⟩ := ih (by omega) (by omega) hrest hf
      exact ⟨by omega, by omega, hpos, hlen, by omega⟩

/-- Month and day of the number of a day in its year. -/
theorem monthAndDay_spec {year : Int} {ordinal : Nat} (h : 1 ≤ ordinal)
    (h' : ordinal ≤ daysInYear year) :
    let found := monthAndDay year [1, 2, 3, 4, 5, 6, 7, 8, 9, 10, 11, 12] ordinal
    1 ≤ found.1 ∧ found.1 ≤ 12 ∧ 1 ≤ found.2 ∧ found.2 ≤ daysInMonth year found.1 ∧
      daysBeforeMonth year found.1 + found.2 = ordinal := by
  have hstart : daysBeforeMonth year 1 = 0 := rfl
  have hlast : daysBeforeMonth year 1 + ordinal ≤ daysBeforeMonth year (1 + 12) := by
    rw [daysInYear_eq]
    omega
  have hmonths : List.range' 1 12 = [1, 2, 3, 4, 5, 6, 7, 8, 9, 10, 11, 12] := rfl
  obtain ⟨hle, hlt, hpos, hlen, hsum⟩ := monthAndDay_range year (Nat.le_refl 1) h hlast rfl
  rw [hmonths] at hle hlt hpos hlen hsum
  exact ⟨hle, Nat.lt_succ_iff.mp hlt, hpos, hlen, by omega⟩

/-- Two days of a year with the same number in it are the same. -/
theorem month_day_eq {year : Int} {m m' d d' : Nat} (hm : 1 ≤ m) (hm' : 1 ≤ m') (hd : 1 ≤ d)
    (hd' : 1 ≤ d') (hl : d ≤ daysInMonth year m) (hl' : d' ≤ daysInMonth year m')
    (h : daysBeforeMonth year m + d = daysBeforeMonth year m' + d') : m = m' ∧ d = d' := by
  have hs := daysBeforeMonth_succ year hm
  have hs' := daysBeforeMonth_succ year hm'
  rcases Nat.lt_trichotomy m m' with hlt | rfl | hgt
  · have := daysBeforeMonth_mono year (show 1 ≤ m + 1 by omega) (show m + 1 ≤ m' by omega)
    omega
  · exact ⟨rfl, by omega⟩
  · have := daysBeforeMonth_mono year (show 1 ≤ m' + 1 by omega) (show m' + 1 ≤ m by omega)
    omega

/-! ## Days -/

theorem ordinal_bounds (d : Date) : 1 ≤ d.ordinal ∧ d.ordinal ≤ daysInYear d.year := by
  obtain ⟨_, _, hm, hm', hd, hd'⟩ := d.isDay
  have hsucc := daysBeforeMonth_succ d.year hm
  have hmono := daysBeforeMonth_mono d.year (show 1 ≤ d.month + 1 by omega)
    (show d.month + 1 ≤ 13 by omega)
  rw [daysInYear_eq] at hmono
  unfold ordinal
  omega

theorem yearOf_number (d : Date) : yearOf d.number = d.year := by
  obtain ⟨h, h'⟩ := d.ordinal_bounds
  refine yearOf_eq ?_ ?_ <;> unfold number
  · omega
  · rw [daysBeforeYear_succ]
    omega

/-- The number of a day in the year that its number belongs to. -/
theorem ordinal_yearOf (n : Int) :
    1 ≤ (n - daysBeforeYear (yearOf n)).toNat ∧
      (n - daysBeforeYear (yearOf n)).toNat ≤ daysInYear (yearOf n) := by
  obtain ⟨h, h'⟩ := yearOf_bounds n
  rw [daysBeforeYear_succ] at h'
  omega

theorem number_of_ofNumber? {n : Int} {d : Date} (h : ofNumber? n = some d) : d.number = n := by
  obtain ⟨hpos, hlen⟩ := ordinal_yearOf n
  obtain ⟨_, _, _, _, hsum⟩ := monthAndDay_spec hpos hlen
  obtain ⟨hb, _⟩ := yearOf_bounds n
  unfold ofNumber? at h
  dsimp only at h
  rw [of?] at h
  split at h
  · cases h
    simp only [number, ordinal, hsum]
    omega
  · cases h

/-- There is a day with a number if and only if its year has at most four digits. -/
theorem ofNumber?_isSome_iff (n : Int) :
    (ofNumber? n).isSome ↔ -lastYear ≤ yearOf n ∧ yearOf n ≤ lastYear := by
  obtain ⟨hpos, hlen⟩ := ordinal_yearOf n
  obtain ⟨hm, hm', hd, hd', _⟩ := monthAndDay_spec hpos hlen
  unfold ofNumber?
  dsimp only
  rw [of?]
  split
  · rename_i hday
    exact ⟨fun _ => ⟨hday.1, hday.2.1⟩, fun _ => rfl⟩
  · rename_i hnone
    refine ⟨fun h => by simp at h, fun h => ?_⟩
    exact absurd ⟨h.1, h.2, hm, hm', hd, hd'⟩ hnone

theorem number_inj {d d' : Date} (h : d.number = d'.number) : d = d' := by
  have hyear : d.year = d'.year := by rw [← yearOf_number d, ← yearOf_number d', h]
  obtain ⟨year, month, day, hday⟩ := d
  obtain ⟨year', month', day', hday'⟩ := d'
  obtain rfl : year = year' := hyear
  obtain ⟨_, _, hm, _, hd, hl⟩ := hday
  obtain ⟨_, _, hm', _, hd', hl'⟩ := hday'
  have hsame : daysBeforeMonth year month + day = daysBeforeMonth year month' + day' := by
    simp only [number, ordinal] at h
    omega
  obtain ⟨rfl, rfl⟩ := month_day_eq hm hm' hd hd' hl hl' hsame
  rfl

/-! ## The calendar -/

/-- The first day of the calendar. -/
def first : Date :=
  ⟨-lastYear, 1, 1, by decide⟩

/-- The last day of the calendar. -/
def last : Date :=
  ⟨lastYear, 12, 31, by decide⟩

/-- Whether a number is that of a day of the calendar. -/
def InCalendar (n : Int) : Prop :=
  first.number ≤ n ∧ n ≤ last.number

instance (n : Int) : Decidable (InCalendar n) := by
  unfold InCalendar
  infer_instance

theorem inCalendar_iff (n : Int) : InCalendar n ↔ -lastYear ≤ yearOf n ∧ yearOf n ≤ lastYear := by
  have hfirst : first.number = daysBeforeYear (-lastYear) + 1 := by rfl
  have hlast : last.number = daysBeforeYear (lastYear + 1) := by rfl
  obtain ⟨hb, hb'⟩ := yearOf_bounds n
  rw [InCalendar, hfirst, hlast]
  constructor
  · intro ⟨h, h'⟩
    constructor <;> by_contra hout
    · have := daysBeforeYear_le (show yearOf n + 1 ≤ -lastYear by omega)
      omega
    · have := daysBeforeYear_le (show lastYear + 1 ≤ yearOf n by omega)
      omega
  · intro ⟨h, h'⟩
    have := daysBeforeYear_le h
    have := daysBeforeYear_le (show yearOf n + 1 ≤ lastYear + 1 by omega)
    constructor <;> omega

/-- Counting days on or back from a day leads to the day with that number, if the calendar has it. -/
theorem addDays?_eq_some (d e : Date) (days : Int) :
    d.addDays? days = some e ↔ e.number = d.number + days := by
  unfold addDays?
  refine ⟨number_of_ofNumber?, fun h => ?_⟩
  have hin : (ofNumber? (d.number + days)).isSome := by
    rw [ofNumber?_isSome_iff, ← h, yearOf_number]
    exact ⟨e.isDay.1, e.isDay.2.1⟩
  obtain ⟨e', he'⟩ := Option.isSome_iff_exists.mp hin
  rw [he', number_inj ((number_of_ofNumber? he').trans h.symm)]

theorem addDays?_isSome_iff (d : Date) (days : Int) :
    (d.addDays? days).isSome ↔ InCalendar (d.number + days) := by
  rw [addDays?, ofNumber?_isSome_iff, inCalendar_iff]

theorem inCalendar_number (d : Date) : InCalendar d.number := by
  rw [inCalendar_iff, yearOf_number]
  exact ⟨d.isDay.1, d.isDay.2.1⟩

theorem isDay_ides : IsDay 2024 3 15 := by
  decide

end WikiHtml.Calendar.Date
