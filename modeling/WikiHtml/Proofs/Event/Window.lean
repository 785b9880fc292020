-- The window of days around today. A date without a year is looked for in the years of the first and
-- of the last day only, so it is missed where it lies in the window in other years alone.
import Mathlib.Algebra.Group.Int.Defs
import Mathlib.Data.Prod.Lex
import Mathlib.Tactic.Tauto
import WikiHtml.Event.Table
import WikiHtml.Proofs.Calendar.Days

namespace WikiHtml.Event

open Calendar Calendar.Date

/-! ## Counts of days -/

/-- Whether a count of days, in seconds, fits into a word of 64 bits. -/
def Measured (days : Int) : Prop :=
  -2 ^ 63 ≤ days * 86400 ∧ days * 86400 < 2 ^ 63

theorem measured_of_measured {days : Int} (h : Measured days) : measured days = .ok days := by
  unfold measured
  dsimp only
  exact if_pos (by simpa [Measured] using h)

theorem measured_of_not_measured {days : Int} (h : ¬Measured days) :
    measured days = .error (.tooManyDays days) := by
  unfold measured
  dsimp only
  refine if_neg fun hin => h ?_
  simpa [Measured] using hin

/-- Days between two days of the calendar can be counted. -/
theorem measured_of_inCalendar {n m : Int} (h : InCalendar n) (h' : InCalendar m) :
    Measured (n - m) := by
  have hfirst : Date.first.number = -3652424 := by decide
  have hlast : Date.last.number = 3652059 := by decide
  simp only [InCalendar, hfirst, hlast] at h h'
  constructor <;> omega

/-! ## Windows -/

/-- Whether the days around today that a range asks for reach beyond the calendar. -/
def Range.Leaves (today : Date) : Range → Prop
  | .year _ => False
  | .around back ahead => ¬(InCalendar (today.number - back) ∧ InCalendar (today.number + ahead))

/-- Whether a count of days is too large to find the days of a range. The days ahead are not counted
if there is no first day. -/
def Range.Overflows (today : Date) : Range → Prop
  | .year _ => False
  | .around back ahead =>
    ¬Measured back ∨ (InCalendar (today.number - back) ∧ ¬Measured ahead)

theorem measured_back {today : Date} {back : Int} (h : InCalendar (today.number - back)) :
    Measured back := by
  have := measured_of_inCalendar (inCalendar_number today) h
  rwa [show today.number - (today.number - back) = back by omega] at this

theorem measured_ahead {today : Date} {ahead : Int} (h : InCalendar (today.number + ahead)) :
    Measured ahead := by
  have := measured_of_inCalendar h (inCalendar_number today)
  rwa [show today.number + ahead - today.number = ahead by omega] at this

/-- A range within the calendar has few enough days. -/
theorem Range.leaves_of_overflows {today : Date} {range : Range} (h : range.Overflows today) :
    range.Leaves today := by
  cases range with
  | year year => exact h
  | around back ahead =>
    rintro ⟨hback, hahead⟩
    rcases h with h | ⟨_, h⟩
    · exact h (measured_back hback)
    · exact h (measured_ahead hahead)

theorem addDays?_eq_none {today : Date} {days : Int} (h : ¬InCalendar (today.number + days)) :
    today.addDays? days = none := by
  rwa [← addDays?_isSome_iff, Bool.not_eq_true, Option.isSome_eq_false_iff,
    Option.isNone_iff_eq_none] at h

theorem exists_addDays? {today : Date} {days : Int} (h : InCalendar (today.number + days)) :
    ∃ day, today.addDays? days = some day ∧ day.number = today.number + days := by
  obtain ⟨day, hday⟩ := Option.isSome_iff_exists.mp ((addDays?_isSome_iff today days).mpr h)
  exact ⟨day, hday, (addDays?_eq_some today day days).mp hday⟩

section Window

variable {today : Date} {back ahead : Int}

theorem window_of_overflows (h : (Range.around back ahead).Overflows today) :
    ∃ cause, window today back ahead = .error cause := by
  by_cases hback : Measured back
  · obtain ⟨hfirst, hahead⟩ := h.resolve_left (not_not_intro hback)
    obtain ⟨first, hfirst, _⟩ := exists_addDays? hfirst
    refine ⟨.tooManyDays ahead, ?_⟩
    simp only [window, measured_of_measured hback, hfirst, measured_of_not_measured hahead, bind,
      Except.bind]
  · refine ⟨.tooManyDays back, ?_⟩
    simp only [window, measured_of_not_measured hback, bind, Except.bind]

theorem window_of_leaves (h : (Range.around back ahead).Leaves today)
    (hfew : ¬(Range.around back ahead).Overflows today) :
    window today back ahead = .ok none := by
  have hback : Measured back := by
    by_contra hback
    exact hfew (.inl hback)
  by_cases hfirst : InCalendar (today.number - back)
  · have hahead : Measured ahead := by
      by_contra hahead
      exact hfew (.inr ⟨hfirst, hahead⟩)
    have hlast := addDays?_eq_none fun hlast => h ⟨hfirst, hlast⟩
    obtain ⟨first, hfirst, _⟩ := exists_addDays? hfirst
    simp only [window, measured_of_measured hback, hfirst, measured_of_measured hahead, hlast, bind,
      Except.bind, pure, Except.pure]
  · simp only [window, measured_of_measured hback, addDays?_eq_none hfirst, bind, Except.bind, pure,
      Except.pure]

theorem window_of_inCalendar (hback : InCalendar (today.number - back))
    (hahead : InCalendar (today.number + ahead)) :
    ∃ first last, first.number = today.number - back ∧ last.number = today.number + ahead ∧
      window today back ahead = .ok (some (first, last)) := by
  obtain ⟨first, hfirst, hnumber⟩ := exists_addDays? hback
  obtain ⟨last, hlast, hnumber'⟩ := exists_addDays? hahead
  refine ⟨first, last, hnumber, hnumber', ?_⟩
  simp only [window, measured_of_measured (measured_back hback), hfirst,
    measured_of_measured (measured_ahead hahead), hlast, bind, Except.bind, pure, Except.pure]

theorem entries_of_window {r : Repository} {first last : Date}
    (h : window today back ahead = .ok (some (first, last))) :
    entries today r (.around back ahead) =
      .ok (some ((ofRepository today r).filterMap (entryInWindow? today first last))) := by
  simp only [entries, h, bind, Except.bind, pure, Except.pure]

end Window

/-- What can come of looking for the entries of a range. -/
theorem entries_cases (today : Date) (r : Repository) (range : Range) :
    (range.Overflows today ∧ ∃ cause, entries today r range = .error cause) ∨
      (¬range.Overflows today ∧ range.Leaves today ∧ entries today r range = .ok none) ∨
      (¬range.Leaves today ∧ ∃ es, entries today r range = .ok (some es)) := by
  cases range with
  | year year => exact .inr (.inr ⟨id, _, rfl⟩)
  | around back ahead =>
    by_cases hover : (Range.around back ahead).Overflows today
    · obtain ⟨cause, hwindow⟩ := window_of_overflows hover
      refine .inl ⟨hover, cause, ?_⟩
      simp only [entries, hwindow, bind, Except.bind]
    · by_cases hleaves : (Range.around back ahead).Leaves today
      · refine .inr (.inl ⟨hover, hleaves, ?_⟩)
        simp only [entries, window_of_leaves hleaves hover, bind, Except.bind, pure, Except.pure]
      · obtain ⟨hback, hahead⟩ := not_not.mp hleaves
        obtain ⟨first, last, _, _, hwindow⟩ := window_of_inCalendar hback hahead
        exact .inr (.inr ⟨hleaves, _, entries_of_window hwindow⟩)

/-! ## Dates in a window -/

/-- Month and day of a day. -/
def yearDay (d : Date) : Nat ×ₗ Nat :=
  toLex (d.month, d.day)

/-- Month and day of a date. What is not known of them counts as one. -/
def namedDay (d : PartialDate) : Nat ×ₗ Nat :=
  toLex (d.month.getD 1, d.day.getD 1)

/-- Year, month and day of a day. -/
def dayKey (d : Date) : Int ×ₗ Nat ×ₗ Nat :=
  toLex (d.year, yearDay d)

/-- Year, month and day of a date that is put into a year. -/
def keyIn (year : Int) (d : PartialDate) : Int ×ₗ Nat ×ₗ Nat :=
  toLex (year, namedDay d)

/-- Whether a date that is put into a year lies in the window of the days from `first` to `last`. -/
def InWindow (first last : Date) (d : PartialDate) (year : Int) : Prop :=
  dayKey first ≤ keyIn year d ∧ keyIn year d ≤ dayKey last

instance (first last : Date) (d : PartialDate) (year : Int) :
    Decidable (InWindow first last d year) := by
  unfold InWindow
  infer_instance

/-- Whether a date lies in a window in some year. -/
def Recurs (first last : Date) (d : PartialDate) : Prop :=
  ∃ year, InWindow first last d year

/-- Whether a date comes too early in the year for the first day of a window and too late for the last
one, while there are years between those of the two. -/
def Between (first last : Date) (d : PartialDate) : Prop :=
  first.year + 1 < last.year ∧ yearDay last < namedDay d ∧ namedDay d < yearDay first

instance (first last : Date) (d : PartialDate) : Decidable (Between first last d) := by
  unfold Between
  infer_instance

theorem compare_ofDate (d : PartialDate) (year : Int) (day : Date) :
    (d.withYear year).compare (.ofDate day) = compare (keyIn year d) (dayKey day) :=
  rfl

theorem isWithin_iff (first last : Date) (d : PartialDate) (year : Int) :
    isWithin (.ofDate first) (.ofDate last) (d.withYear year) = true ↔
      InWindow first last d year := by
  rw [isWithin, compare_ofDate, compare_ofDate, Bool.and_eq_true, bne_iff_ne, bne_iff_ne,
    compare_ge_iff_ge, compare_le_iff_le, InWindow]

section Years

variable {first last : Date} {d : PartialDate} {year : Int}

/-- A date lies in a window in a year by the years and, at its ends, by month and day. -/
theorem inWindow_iff :
    InWindow first last d year ↔
      (first.year < year ∨ first.year = year ∧ yearDay first ≤ namedDay d) ∧
        (year < last.year ∨ year = last.year ∧ namedDay d ≤ yearDay last) := by
  simp only [InWindow, dayKey, keyIn, Prod.Lex.toLex_le_toLex]

theorem Between.inWindow (h : Between first last d) : InWindow first last d (first.year + 1) := by
  rw [inWindow_iff]
  exact ⟨.inl (by omega), .inl h.1⟩

theorem Between.not_inWindow (h : Between first last d) :
    ¬InWindow first last d first.year ∧ ¬InWindow first last d last.year := by
  obtain ⟨hyears, hlate, hearly⟩ := h
  simp only [inWindow_iff]
  constructor
  · rintro ⟨hfirst | ⟨_, hfirst⟩, _⟩
    · omega
    · exact absurd hfirst (not_le_of_gt hearly)
  · rintro ⟨_, hlast | ⟨_, hlast⟩⟩
    · omega
    · exact absurd hlast (not_le_of_gt hlate)

/-- A date that lies in a window in some year does so in that of the first or of the last day, unless
it comes too early for the one and too late for the other. -/
theorem inWindow_end_or_between (h : InWindow first last d year) :
    InWindow first last d first.year ∨ InWindow first last d last.year ∨ Between first last d := by
  simp only [inWindow_iff, true_and] at h ⊢
  obtain ⟨hfirst | ⟨rfl, hfirst⟩, hlast⟩ := h
  · rcases hlast with hlast | ⟨rfl, hlast⟩
    case inr => exact .inr (.inl ⟨.inl hfirst, .inr hlast⟩)
    -- the year lies between those of the ends
    rcases le_or_gt (yearDay first) (namedDay d) with hle | hearly
    · exact .inl ⟨.inr hle, .inl (by omega)⟩
    · rcases le_or_gt (namedDay d) (yearDay last) with hle | hlate
      · exact .inr (.inl ⟨.inl (by omega), .inr hle⟩)
      · exact .inr (.inr ⟨by omega, hlate, hearly⟩)
  · exact .inl ⟨.inr hfirst, hlast⟩

theorem recurs_iff :
    Recurs first last d ↔
      InWindow first last d first.year ∨ InWindow first last d last.year ∨
        Between first last d := by
  constructor
  · rintro ⟨year, h⟩
    exact inWindow_end_or_between h
  · rintro (h | h | h)
    · exact ⟨_, h⟩
    · exact ⟨_, h⟩
    · exact ⟨_, h.inWindow⟩

instance : Decidable (Recurs first last d) :=
  decidable_of_iff _ recurs_iff.symm

/-- Which dates are found in the years of the first and the last day. -/
theorem inWindow_end_iff :
    InWindow first last d first.year ∨ InWindow first last d last.year ↔
      Recurs first last d ∧ ¬Between first last d := by
  rw [recurs_iff]
  constructor
  · intro h
    refine ⟨by tauto, fun hbetween => ?_⟩
    obtain ⟨hfirst, hlast⟩ := hbetween.not_inWindow
    exact h.elim hfirst hlast
  · tauto

end Years

/-! ## Entries of a window -/

/-- The tense of a date in a year. -/
def tenseIn (today : Date) (d : PartialDate) (year : Int) : Tense :=
  Tense.ofOrdering (compare (keyIn year d) (dayKey today))

theorem Tense.ofOrdering_eq (o : Ordering) :
    (Tense.ofOrdering o = .past ↔ o = .lt) ∧ (Tense.ofOrdering o = .present ↔ o = .eq) ∧
      (Tense.ofOrdering o = .future ↔ o = .gt) := by
  cases o <;> decide

/-- The tense tells where a date lies, seen from today. -/
theorem tenseIn_eq (today : Date) (d : PartialDate) (year : Int) :
    (tenseIn today d year = .past ↔ keyIn year d < dayKey today) ∧
      (tenseIn today d year = .present ↔ keyIn year d = dayKey today) ∧
      (tenseIn today d year = .future ↔ dayKey today < keyIn year d) := by
  obtain ⟨hpast, hpresent, hfuture⟩ :=
    Tense.ofOrdering_eq (compare (keyIn year d) (dayKey today))
  exact ⟨hpast.trans compare_lt_iff_lt, hpresent.trans compare_eq_iff_eq,
    hfuture.trans compare_gt_iff_gt⟩

section Entries

variable {today first last : Date} {e : Event} {entry : Entry}

/-- An entry of a window shows its event in a year in which it lies in the window. -/
theorem entryInWindow?_eq_some (h : entryInWindow? today first last e = some entry) :
    ∃ year, InWindow first last e.date year ∧
      entry = ⟨e, e.date, e.date.withYear year, some (tenseIn today e.date year), ageIn e year⟩ := by
  unfold entryInWindow? at h
  simp only [Option.bind_eq_bind, Option.bind_eq_some_iff, Option.pure_def] at h
  obtain ⟨year, hfind, h⟩ := h
  split at h
  · cases h
  · have hin := List.find?_some hfind
    exact ⟨year, (isWithin_iff first last e.date year).mp hin, (Option.some.inj h).symm⟩

theorem isUnborn_of_yearless (h : e.date.year = none) (year : Int) : isUnborn e year = false := by
  simp [isUnborn, ageIn, h]

/-- An event without a year has an entry if it lies in the window in the year of the first or of the
last day. -/
theorem entryInWindow?_yearless (h : e.date.year = none) :
    (entryInWindow? today first last e).isSome ↔
      InWindow first last e.date first.year ∨ InWindow first last e.date last.year := by
  unfold entryInWindow?
  simp only [Option.bind_eq_bind, Option.isSome_bind, isUnborn_of_yearless h, Bool.false_eq_true,
    if_false, Option.pure_def, Option.isSome_some, Option.any_true]
  simp [List.find?_isSome, isWithin_iff]

/-- The events that have an entry, in their order. -/
theorem map_event_filterMap (events : List Event) :
    (events.filterMap (entryInWindow? today first last)).map Entry.event =
      events.filter fun e => (entryInWindow? today first last e).isSome := by
  have hevent (e : Event) : (entryInWindow? today first last e).map Entry.event =
      Option.guard (fun e => (entryInWindow? today first last e).isSome) e := by
    rcases h : entryInWindow? today first last e with _ | entry
    · simp [Option.guard, h]
    · obtain ⟨year, _, rfl⟩ := entryInWindow?_eq_some h
      simp [Option.guard, h]
  rw [List.map_filterMap, ← List.filterMap_eq_filter, funext hevent]

end Entries

/-- Whether the year of an event is not known. -/
def isYearless (e : Event) : Bool :=
  e.date.year.isNone

/-- A window within the calendar lists, of the events without a year, those that lie in it in some year,
except those that come too early in the year for its first day and too late for its last one while there
are years between. Each entry is sorted by a date in the window and has the tense of that date. -/
theorem windows_list_what_recurs_in_the_years_of_their_ends (r : Repository) (today : Date)
    (back ahead : Int) (hback : InCalendar (today.number - back))
    (hahead : InCalendar (today.number + ahead)) :
    ∃ first last es,
      first.number = today.number - back ∧ last.number = today.number + ahead ∧
      entries today r (.around back ahead) = .ok (some es) ∧
      (es.map Entry.event).filter isYearless =
        (ofRepository today r).filter (fun e =>
          isYearless e && Recurs first last e.date && !Between first last e.date) ∧
      ∀ entry ∈ es, ∃ year,
        entry.sortDate = entry.event.date.withYear year ∧
        InWindow first last entry.event.date year ∧
        (entry.tense = some .past ↔ keyIn year entry.event.date < dayKey today) ∧
        (entry.tense = some .present ↔ keyIn year entry.event.date = dayKey today) ∧
        (entry.tense = some .future ↔ dayKey today < keyIn year entry.event.date) := by
  obtain ⟨first, last, hfirst, hlast, hwindow⟩ := window_of_inCalendar hback hahead
  refine ⟨first, last, _, hfirst, hlast, entries_of_window hwindow, ?_, ?_⟩
  · rw [map_event_filterMap, List.filter_filter]
    refine List.filter_congr fun e _ => ?_
    by_cases hyearless : isYearless e
    · have hlisted : (entryInWindow? today first last e).isSome ↔
          Recurs first last e.date ∧ ¬Between first last e.date :=
        (entryInWindow?_yearless (Option.isNone_iff_eq_none.mp hyearless)).trans inWindow_end_iff
      rw [Bool.eq_iff_iff]
      simp [hyearless, hlisted]
    · simp [hyearless]
  · intro entry hentry
    obtain ⟨e, _, hentry⟩ := List.mem_filterMap.mp hentry
    obtain ⟨year, hin, rfl⟩ := entryInWindow?_eq_some hentry
    obtain ⟨hpast, hpresent, hfuture⟩ := tenseIn_eq today e.date year
    exact ⟨year, rfl, hin, Option.some_inj.trans hpast, Option.some_inj.trans hpresent,
      Option.some_inj.trans hfuture⟩

/-- The fifteenth of March 2024. -/
def ides : Date := ⟨2024, 3, 15, isDay_ides⟩

/-- A repository with one task, which has no description. -/
def oneTask (schedule : String) : Repository :=
  Repository.empty.insert "/T" (.node (.leaf (.task .open (some schedule) none)) none)

/-- A task of each twelfth of March is listed three days later. -/
theorem the_twelfth_of_march_lies_three_days_back :
    InCalendar (ides.number - 3) ∧ InCalendar (ides.number + 10) ∧
      ∃ es, entries ides (oneTask "12.03.") (.around 3 10) = .ok (some es) ∧
        (es.map Entry.event).filter isYearless = [⟨"/T", none, ⟨some 12, some 3, none⟩⟩] := by
  have hback : InCalendar (ides.number - 3) := by decide
  have hahead : InCalendar (ides.number + 10) := by decide
  refine ⟨hback, hahead, ?_⟩
  obtain ⟨first, last, es, hfirst, hlast, hes, hlisted, _⟩ :=
    windows_list_what_recurs_in_the_years_of_their_ends (oneTask "12.03.") ides 3 10 hback hahead
  obtain rfl : first = ⟨2024, 3, 12, by decide⟩ := number_inj (hfirst.trans (by decide))
  obtain rfl : last = ⟨2024, 3, 25, by decide⟩ := number_inj (hlast.trans (by decide))
  exact ⟨es, hes, hlisted.trans rfl⟩

/-- The twentieth of January 2024 lies in a window that starts in 2023 and ends in 2025, and a task of
each twentieth of January is not listed. -/
theorem a_day_of_the_year_between_is_missed :
    let first : Date := ⟨2023, 2, 9, by decide⟩
    let last : Date := ⟨2025, 1, 9, by decide⟩
    let event : Event := ⟨"/T", none, ⟨some 20, some 1, none⟩⟩
    first.number = ides.number - 400 ∧ last.number = ides.number + 300 ∧
      event ∈ ofRepository ides (oneTask "20.01.") ∧ InWindow first last event.date 2024 ∧
      entries ides (oneTask "20.01.") (.around 400 300) = .ok (some []) := by
  intro first last event
  have hevents : ofRepository ides (oneTask "20.01.") = [event] := rfl
  exact ⟨by decide, by decide, by simp [hevents], by decide, rfl⟩

end WikiHtml.Event
