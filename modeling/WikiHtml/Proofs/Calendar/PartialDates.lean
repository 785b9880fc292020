-- Partial dates are read as they are shown. Which parts are missing is told by the points alone: a day
-- and a month each have one behind them, a year has none.
import Mathlib.Data.List.TakeWhile
import WikiHtml.Calendar.PartialDate
import WikiHtml.Proofs.Text.Integer

namespace WikiHtml.Calendar.PartialDate

/-! ## Dates that can be read -/

/-- A date whose parts fit: day and month into eight bits, the year into 32 bits with a sign. Its day is
known only together with the month. -/
structure Fits (d : PartialDate) : Prop where
  day : ∀ n ∈ d.day, n < 2 ^ 8
  month : ∀ n ∈ d.month, n < 2 ^ 8
  year : ∀ n ∈ d.year, -2 ^ 31 ≤ n ∧ n < 2 ^ 31
  together : d.month = none → d.day = none

theorem year?_within {s : List Char} {year : Option Int} (h : year? s = some year) :
    ∀ n ∈ year, -2 ^ 31 ≤ n ∧ n < 2 ^ 31 := by
  intro n hn
  obtain rfl := Option.mem_def.mp hn
  unfold year? at h
  split at h
  · cases h
  · obtain ⟨value, hvalue, hsome⟩ := Option.map_eq_some_iff.mp h
    obtain rfl := Option.some.inj hsome
    obtain ⟨hl, hg⟩ := Text.integer?_within hvalue
    exact ⟨hl, Int.lt_of_le_sub_one hg⟩

theorem part?_within {s : List Char} {part : Nat} (h : part? s = some part) :
    ∀ n ∈ some part, n < 2 ^ 8 := by
  intro n hn
  obtain rfl := Option.some.inj hn
  exact Text.unsigned?_within h

theorem fits_ofWord? {s : List Char} {d : PartialDate} (h : ofWord? s = some d) : d.Fits := by
  have hnone : ∀ n ∈ (none : Option Nat), n < 2 ^ 8 := by simp
  unfold ofWord? at h
  split at h
  · obtain ⟨year, hyear, h⟩ := Option.bind_eq_some_iff.mp h
    cases h
    exact ⟨hnone, hnone, year?_within hyear, fun _ => rfl⟩
  · split at h
    · obtain ⟨month, hmonth, h⟩ := Option.bind_eq_some_iff.mp h
      obtain ⟨year, hyear, h⟩ := Option.bind_eq_some_iff.mp h
      cases h
      exact ⟨hnone, part?_within hmonth, year?_within hyear, fun _ => rfl⟩
    · obtain ⟨day, hday, h⟩ := Option.bind_eq_some_iff.mp h
      obtain ⟨month, hmonth, h⟩ := Option.bind_eq_some_iff.mp h
      obtain ⟨year, hyear, h⟩ := Option.bind_eq_some_iff.mp h
      cases h
      exact ⟨part?_within hday, part?_within hmonth, year?_within hyear, fun hm => by cases hm⟩

/-! ## Points and spaces -/

theorem splitPoint_append {s : List Char} (h : '.' ∉ s) (rest : List Char) :
    splitPoint (s ++ '.' :: rest) = (s, some rest) := by
  have hpass : ∀ c ∈ s, (c != '.') = true := fun c hc => bne_iff_ne.mpr fun he => h (he ▸ hc)
  unfold splitPoint
  rw [List.dropWhile_append_of_pos hpass, List.takeWhile_append_of_pos hpass]
  simp

theorem splitPoint_of_not_mem {s : List Char} (h : '.' ∉ s) : splitPoint s = (s, none) := by
  have hpass : ∀ c ∈ s, (c != '.') = true := fun c hc => bne_iff_ne.mpr fun he => h (he ▸ hc)
  unfold splitPoint
  rw [List.dropWhile_eq_nil_iff.mpr hpass]

theorem parse?_word {text : String} {c : Char} {word : List Char} (rest : List Char)
    (hs : ' ' ∉ c :: word) (ht : text.toList = c :: word ++ rest) (hrest : ∀ d ∈ rest.head?, d = ' ') :
    parse? text = ofWord? (c :: word) := by
  have hpass : ∀ d ∈ c :: word, (d != ' ') = true := fun d hd => bne_iff_ne.mpr fun he => hs (he ▸ hd)
  have hfirst : (c :: (word ++ rest)).dropWhile (· == ' ') = c :: (word ++ rest) :=
    List.dropWhile_cons_of_neg (by simpa using hpass c (by simp))
  have hend : rest.takeWhile (· != ' ') = [] := by
    cases rest with
    | nil => rfl
    | cons d rest => simp [hrest d (by simp)]
  rw [parse?, ht, List.cons_append, hfirst, ← List.cons_append,
    List.takeWhile_append_of_pos hpass, hend, List.append_nil]

/-- A text without spaces is one word. -/
theorem parse?_of_not_mem {text : String} (hs : ' ' ∉ text.toList) :
    parse? text = ofWord? text.toList := by
  rcases ht : text.toList with _ | ⟨c, word⟩
  · rw [parse?, ht]
    rfl
  · exact parse?_word [] (ht ▸ hs) (by rw [ht, List.append_nil]) (by simp)

/-- What comes behind a first word and a space does not count. -/
theorem parse?_append {text : String} (hs : ' ' ∉ text.toList) (hne : text ≠ "") (rest : String) :
    parse? (text ++ " " ++ rest) = parse? text := by
  rw [parse?_of_not_mem hs]
  rcases ht : text.toList with _ | ⟨c, word⟩
  · exact absurd (String.toList_eq_nil_iff.mp ht) hne
  · exact parse?_word (' ' :: rest.toList) (ht ▸ hs) (by simp [ht]) (by simp)

/-! ## Parts -/

/-- The characters of a year, if it is known. -/
def yearChars : Option Int → List Char
  | some year => (toString year).toList
  | none => []

theorem toList_shown (d : PartialDate) : d.shown.toList =
    (shownPart d.day).toList ++ (shownPart d.month).toList ++ yearChars d.year := by
  obtain ⟨day, month, _ | year⟩ := d <;> simp [shown, yearChars]

theorem toList_shownPart (n : Nat) :
    (shownPart (some n)).toList = (Text.padded '0' 2 n).toList ++ ['.'] := by
  rw [shownPart, String.toList_append]
  rfl

theorem not_mem_padded {c : Char} (hc : c.isDigit = false) (n : Nat) :
    c ∉ (Text.padded '0' 2 n).toList := by
  intro hm
  rw [Text.isDigit_padded 2 n c hm] at hc
  cases hc

theorem not_mem_yearChars {c : Char} (hc : c.isDigit = false) (hminus : c ≠ '-')
    (year : Option Int) : c ∉ yearChars year := by
  cases year with
  | none => exact List.not_mem_nil
  | some year =>
    intro hm
    rcases Text.mem_toString c hm with rfl | hdigit
    · exact hminus rfl
    · rw [hdigit] at hc
      cases hc

theorem space_not_mem_shown (d : PartialDate) : ' ' ∉ d.shown.toList := by
  have hpart : ∀ part, ' ' ∉ (shownPart part).toList := by
    intro part
    cases part with
    | none => exact List.not_mem_nil
    | some n =>
      rw [toList_shownPart, List.mem_append]
      exact fun hm => hm.elim (not_mem_padded (by decide) n) (by decide)
  rw [toList_shown, List.mem_append, List.mem_append]
  rintro ((hm | hm) | hm)
  · exact hpart d.day hm
  · exact hpart d.month hm
  · exact not_mem_yearChars (by decide) (by decide) d.year hm

theorem part?_padded {part : Option Nat} {n : Nat} (hfits : ∀ n ∈ part, n < 2 ^ 8)
    (hn : part = some n) : part? (Text.padded '0' 2 n).toList = some n :=
  Text.unsigned?_padded (hfits n hn)

theorem year?_yearChars {year : Option Int} (h : ∀ n ∈ year, -2 ^ 31 ≤ n ∧ n < 2 ^ 31) :
    year? (yearChars year) = some year := by
  cases year with
  | none => rfl
  | some year =>
    obtain ⟨hl, hg⟩ := h year rfl
    have hread : Text.signed? 32 (toString year).toList = some year :=
      Text.integer?_toString hl (Int.le_sub_one_of_lt hg)
    rw [yearChars, year?, if_neg (Text.toString_ne_nil year), hread, Option.map_some]

/-! ## Dates -/

theorem ofWord?_shown {d : PartialDate} (h : d.Fits) : ofWord? d.shown.toList = some d := by
  have hyear := year?_yearChars h.year
  have hpoint := not_mem_yearChars (c := '.') (by decide) (by decide) d.year
  obtain ⟨day, month, year⟩ := d
  dsimp only at hyear hpoint
  rw [toList_shown]
  dsimp only
  cases month with
  | none =>
    obtain rfl : day = none := h.together rfl
    simp only [shownPart, String.toList_empty, List.nil_append, ofWord?, splitPoint_of_not_mem hpoint,
      hyear]
    rfl
  | some m =>
    have hm := part?_padded h.month rfl
    have hmonth := splitPoint_append (not_mem_padded (c := '.') (by decide) m)
    cases day with
    | none =>
      have hword : (shownPart none).toList ++ (shownPart (some m)).toList ++ yearChars year =
          (Text.padded '0' 2 m).toList ++ '.' :: yearChars year := by
        rw [toList_shownPart]
        simp [shownPart]
      simp only [hword, ofWord?, hmonth, splitPoint_of_not_mem hpoint, hm, hyear]
      rfl
    | some n =>
      have hday := splitPoint_append (not_mem_padded (c := '.') (by decide) n)
      have hword : (shownPart (some n)).toList ++ (shownPart (some m)).toList ++ yearChars year =
          (Text.padded '0' 2 n).toList ++ '.' :: ((Text.padded '0' 2 m).toList ++
            '.' :: yearChars year) := by
        rw [toList_shownPart, toList_shownPart]
        simp
      simp only [hword, ofWord?, hday, hmonth, part?_padded h.day rfl, hm, hyear]
      rfl

theorem parse?_shown {d : PartialDate} (h : d.Fits) : parse? d.shown = some d := by
  rw [parse?_of_not_mem (space_not_mem_shown d), ofWord?_shown h]

/-- The dates that are read are those whose parts fit. Each of them is read from what is shown of it,
also where more stands behind that and a space, so no two are shown alike. -/
theorem partial_dates_are_read_as_they_are_shown :
    (∀ text d, parse? text = some d → d.Fits ∧ parse? d.shown = some d) ∧
    (∀ d : PartialDate, d.Fits → parse? d.shown = some d ∧
      ∀ rest, d.shown ≠ "" → parse? (d.shown ++ " " ++ rest) = some d) ∧
    ∀ d e : PartialDate, d.Fits → e.Fits → d.shown = e.shown → d = e := by
  refine ⟨fun text d h => ?_, fun d h => ⟨parse?_shown h, fun rest hne => ?_⟩, fun d e hd he h => ?_⟩
  · exact ⟨fits_ofWord? h, parse?_shown (fits_ofWord? h)⟩
  · rw [parse?_append (space_not_mem_shown d) hne, parse?_shown h]
  · exact Option.some.inj ((parse?_shown hd).symm.trans (h ▸ parse?_shown he))

/-- A month and a year before the first one. -/
def monthBefore : PartialDate :=
  ⟨none, some 255, some (-2147483648)⟩

theorem fits_monthBefore : monthBefore.Fits :=
  ⟨by simp [monthBefore], by simp [monthBefore], by simp [monthBefore], fun h => by cases h⟩

theorem a_month_of_a_year_before_the_first_is_read :
    parse? "  +255.-02147483648 18:00" = some monthBefore ∧ monthBefore.Fits ∧
      monthBefore.shown = "255.-2147483648" ∧ parse? monthBefore.shown = some monthBefore ∧
      parse? (monthBefore.shown ++ " " ++ "1.") = some monthBefore := by
  obtain ⟨hread, hshown, _⟩ := partial_dates_are_read_as_they_are_shown
  have htext : parse? "  +255.-02147483648 18:00" = some monthBefore := by decide +kernel
  have hsame : monthBefore.shown = "255.-2147483648" := by decide +kernel
  exact ⟨htext, fits_monthBefore, hsame, (hread _ _ htext).2,
    (hshown _ fits_monthBefore).2 "1." (by rw [hsame]; decide)⟩

end WikiHtml.Calendar.PartialDate
