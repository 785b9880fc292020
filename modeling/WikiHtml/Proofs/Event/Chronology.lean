-- The order of the entries in a table. Dates of which not all have a year are not ordered, but each entry
-- is sorted by a date with one. Entries of one date stay in the order in which they were found: page by
-- page, the birthday first and then the tasks of the page.
import WikiHtml.Proofs.Document.Parts
import WikiHtml.Proofs.Event.Birthday
import WikiHtml.Proofs.Event.Window
import WikiHtml.Proofs.Repository

namespace WikiHtml

open Calendar

/-! ## Days -/

namespace Calendar.Date

variable {d e : Date}

theorem number_lt_of_year (h : d.year < e.year) : d.number < e.number := by
  obtain ⟨-, hlast⟩ := d.ordinal_bounds
  obtain ⟨hfirst, -⟩ := e.ordinal_bounds
  have hyears := daysBeforeYear_le (show d.year + 1 ≤ e.year from h)
  rw [daysBeforeYear_succ] at hyears
  unfold number
  omega

theorem number_lt_of_month (hy : d.year = e.year) (h : d.month < e.month) : d.number < e.number := by
  obtain ⟨-, -, hm, -, -, hd⟩ := d.isDay
  obtain ⟨-, -, -, -, hd', -⟩ := e.isDay
  have hmonth := daysBeforeMonth_succ d.year hm
  have hmonths := daysBeforeMonth_mono d.year (show 1 ≤ d.month + 1 by omega) h
  unfold number ordinal
  rw [← hy]
  omega

theorem number_lt_of_day (hy : d.year = e.year) (hm : d.month = e.month) (h : d.day < e.day) :
    d.number < e.number := by
  unfold number ordinal
  rw [hy, hm]
  omega

end Calendar.Date

namespace Event

open Calendar.Date

theorem number_lt_of_dayKey {x y : Date} (h : dayKey x < dayKey y) : x.number < y.number := by
  simp only [dayKey, yearDay, Prod.Lex.toLex_lt_toLex] at h
  rcases h with h | ⟨hyear, h | ⟨hmonth, h⟩⟩
  · exact number_lt_of_year h
  · exact number_lt_of_month hyear h
  · exact number_lt_of_day hyear hmonth h

/-- Days are compared as the calendar has them. -/
theorem compare_days (x y : Date) :
    (PartialDate.ofDate x).compare (.ofDate y) = compare x.number y.number := by
  have hkeys : (PartialDate.ofDate x).compare (.ofDate y) = compare (dayKey x) (dayKey y) := rfl
  rw [hkeys]
  rcases lt_trichotomy (dayKey x) (dayKey y) with hlt | heq | hgt
  · rw [compare_lt_iff_lt.mpr hlt, compare_lt_iff_lt.mpr (number_lt_of_dayKey hlt)]
  · have hnumber : x.number = y.number := by
      simp only [dayKey, yearDay, EmbeddingLike.apply_eq_iff_eq, Prod.mk.injEq] at heq
      obtain ⟨hyear, hmonth, hday⟩ := heq
      simp only [number, ordinal, hyear, hmonth, hday]
    rw [compare_eq_iff_eq.mpr heq, compare_eq_iff_eq.mpr hnumber]
  · rw [compare_gt_iff_gt.mpr hgt, compare_gt_iff_gt.mpr (number_lt_of_dayKey hgt)]

/-! ## Dates with a year -/

/-- Year, month and day of a date with a year. -/
def dateKey (d : PartialDate) : Int ×ₗ Nat ×ₗ Nat :=
  keyIn (d.year.getD 0) d

theorem compare_dated {a b : PartialDate} (ha : a.year.isSome) (hb : b.year.isSome) :
    a.compare b = compare (dateKey a) (dateKey b) := by
  obtain ⟨day, month, year⟩ := a
  obtain ⟨day', month', year'⟩ := b
  obtain ⟨y, rfl⟩ := Option.isSome_iff_exists.mp ha
  obtain ⟨y', rfl⟩ := Option.isSome_iff_exists.mp hb
  rfl

/-- Among some dates `compare` is a total preorder. -/
structure TotallyPreordered (dates : List PartialDate) : Prop where
  refl : ∀ a ∈ dates, a.compare a = .eq
  swap : ∀ a ∈ dates, ∀ b ∈ dates, a.compare b = (b.compare a).swap
  total : ∀ a ∈ dates, ∀ b ∈ dates, a.compare b ≠ .gt ∨ b.compare a ≠ .gt
  trans : ∀ a ∈ dates, ∀ b ∈ dates, ∀ c ∈ dates,
    a.compare b ≠ .gt → b.compare c ≠ .gt → a.compare c ≠ .gt

theorem totallyPreordered_of_dated {dates : List PartialDate} (h : ∀ d ∈ dates, d.year.isSome) :
    TotallyPreordered dates where
  refl a ha := by
    rw [compare_dated (h a ha) (h a ha), compare_eq_iff_eq]
  swap a ha b hb := by
    rw [compare_dated (h a ha) (h b hb), compare_dated (h b hb) (h a ha)]
    exact Std.OrientedCmp.eq_swap
  total a ha b hb := by
    rw [compare_dated (h a ha) (h b hb), compare_dated (h b hb) (h a ha), compare_le_iff_le,
      compare_le_iff_le]
    exact le_total _ _
  trans a ha b hb c hc := by
    rw [compare_dated (h a ha) (h b hb), compare_dated (h b hb) (h c hc),
      compare_dated (h a ha) (h c hc), compare_le_iff_le, compare_le_iff_le, compare_le_iff_le]
    exact le_trans

/-! ## Entries -/

section

variable {today : Date} {r : Repository} {range : Range} {es : List Entry}

/-- The entries of a range are those of some of the events, in their order, and each is sorted by a date
with a year. -/
theorem exists_entry_of_entries (h : entries today r range = .ok (some es)) :
    ∃ listed? : Event → Option Entry, es = (ofRepository today r).filterMap listed? ∧
      ∀ e entry, listed? e = some entry → entry.event = e ∧ entry.sortDate.year.isSome := by
  cases range with
  | year year =>
    refine ⟨entryInYear? year, ?_, fun e entry hentry => ?_⟩
    · simpa [entries, pure, Except.pure] using h.symm
    · unfold entryInYear? at hentry
      split at hentry
      · cases hentry
      · cases hentry
        exact ⟨rfl, rfl⟩
  | around back ahead =>
    rcases hwindow : window today back ahead with fault | _ | ⟨first, last⟩
    · simp [entries, hwindow, bind, Except.bind] at h
    · simp [entries, hwindow, bind, Except.bind, pure, Except.pure] at h
    · rw [entries_of_window hwindow] at h
      cases h
      refine ⟨entryInWindow? today first last, rfl, fun e entry hentry => ?_⟩
      obtain ⟨year, -, rfl⟩ := entryInWindow?_eq_some hentry
      exact ⟨rfl, rfl⟩

theorem dated_of_entries (h : entries today r range = .ok (some es)) :
    ∀ entry ∈ es, entry.sortDate.year.isSome := by
  obtain ⟨listed?, rfl, hentry⟩ := exists_entry_of_entries h
  intro entry hmem
  obtain ⟨e, -, he⟩ := List.mem_filterMap.mp hmem
  exact (hentry e entry he).2

/-- The events of the entries stand in the order of all events. -/
theorem events_sublist (h : entries today r range = .ok (some es)) :
    (es.map Entry.event).Sublist (ofRepository today r) := by
  obtain ⟨listed?, rfl, hentry⟩ := exists_entry_of_entries h
  have hevents : ((ofRepository today r).filterMap listed?).map Entry.event =
      (ofRepository today r).filter fun e => (listed? e).isSome := by
    rw [List.map_filterMap, ← List.filterMap_eq_filter]
    refine List.filterMap_congr fun e _ => ?_
    rcases he : listed? e with _ | entry
    · simp [Option.guard, he]
    · simp [Option.guard, he, (hentry e entry he).1]
  rw [hevents]
  exact List.filter_sublist

end

/-! ## Sorting -/

/-- Whether two entries are sorted by the same date. What is not known of a day counts as the first. -/
def onDate (date : PartialDate) (entry : Entry) : Bool :=
  entry.sortDate.compare date == .eq

section

variable {es : List Entry}

/-- Whether the key of the date that an entry is sorted by does not come after that of another one. -/
def keyLe (a b : Entry) : Bool :=
  decide (dateKey a.sortDate ≤ dateKey b.sortDate)

theorem keyLe_iff {a b : Entry} : keyLe a b = true ↔ dateKey a.sortDate ≤ dateKey b.sortDate :=
  decide_eq_true_iff

theorem keyLe_trans (a b c : Entry) (hab : keyLe a b = true) (hbc : keyLe b c = true) :
    keyLe a c = true :=
  keyLe_iff.mpr ((keyLe_iff.mp hab).trans (keyLe_iff.mp hbc))

theorem keyLe_total (a b : Entry) : (keyLe a b || keyLe b a) = true := by
  rw [Bool.or_eq_true, keyLe_iff, keyLe_iff]
  exact le_total _ _

/-- Entries that are sorted by dates with a year are sorted by keys, which are ordered linearly. -/
theorem chronological_eq (h : ∀ entry ∈ es, entry.sortDate.year.isSome) :
    chronological es = es.mergeSort keyLe := by
  have hsame : ∀ a ∈ es, ∀ b ∈ es,
      (a.sortDate.compare b.sortDate != .gt) = keyLe (id a) (id b) := by
    intro a ha b hb
    rw [compare_dated (h a ha) (h b hb), Bool.eq_iff_iff, bne_iff_ne, compare_le_iff_le]
    exact keyLe_iff.symm
  have hsort := List.map_mergeSort (f := id)
    (r := fun a b : Entry => a.sortDate.compare b.sortDate != .gt) hsame
  rwa [List.map_id, List.map_id] at hsort

theorem perm_chronological (es : List Entry) : (chronological es).Perm es :=
  List.mergeSort_perm es _

theorem ascends_chronological (h : ∀ entry ∈ es, entry.sortDate.year.isSome) :
    (chronological es).Pairwise fun a b => a.sortDate.compare b.sortDate ≠ .gt := by
  have hsorted := List.pairwise_mergeSort keyLe_trans keyLe_total es
  rw [← chronological_eq h] at hsorted
  refine hsorted.imp_of_mem fun {a b} ha hb hab => ?_
  have hdated := fun entry hentry => h entry ((perm_chronological es).mem_iff.mp hentry)
  rw [compare_dated (hdated a ha) (hdated b hb), compare_le_iff_le]
  exact keyLe_iff.mp hab

/-- The entries of one date stay in the order in which they were. -/
theorem filter_chronological (h : ∀ entry ∈ es, entry.sortDate.year.isSome) {date : PartialDate}
    (hdate : date.year.isSome) :
    (chronological es).filter (onDate date) = es.filter (onDate date) := by
  have hkey : ∀ entry ∈ es.filter (onDate date), dateKey entry.sortDate = dateKey date := by
    intro entry hentry
    obtain ⟨hmem, hon⟩ := List.mem_filter.mp hentry
    rwa [onDate, beq_iff_eq, compare_dated (h entry hmem) hdate, compare_eq_iff_eq] at hon
  have hpairwise : (es.filter (onDate date)).Pairwise fun a b => keyLe a b = true :=
    List.pairwise_of_forall_mem_list fun a ha b hb =>
      keyLe_iff.mpr (le_of_eq ((hkey a ha).trans (hkey b hb).symm))
  have hsublist := List.sublist_mergeSort keyLe_trans keyLe_total hpairwise List.filter_sublist
  rw [← chronological_eq h] at hsublist
  have hfilter := hsublist.filter (onDate date)
  simp only [List.filter_filter, Bool.and_self] at hfilter
  refine (hfilter.eq_of_length ?_).symm
  exact ((perm_chronological es).filter (onDate date)).length_eq.symm

end

/-! ## Pages and places -/

/-- The order of events: the paths of their pages ascend, and in each page the birthday comes before the
tasks, which are in the order of the document. -/
structure InPageOrder (today : Date) (r : Repository) (events : List Event) : Prop where
  stored : ∀ e ∈ events, e.page ∈ r.paths
  pages : events.Pairwise fun a b => a.page ≤ b.page
  within : ∀ path page, (path, page) ∈ r.pages →
    (events.filter (·.page = path)).Sublist
      ((birthday? today page).toList.map (fun date => ⟨path, none, date⟩) ++
        (page.parts.filterMap fun part => task? part.element).map
          fun (date, description) => ⟨path, description, date⟩)

section

variable {today : Date} {r : Repository} {events : List Event}

theorem InPageOrder.sublist (h : InPageOrder today r events) {some : List Event}
    (hs : some.Sublist events) : InPageOrder today r some where
  stored e he := h.stored e (hs.subset he)
  pages := h.pages.sublist hs
  within path page hp := (hs.filter _).trans (h.within path page hp)

theorem page_of_mem_ofPage {path : String} {page : Document} {e : Event}
    (h : e ∈ ofPage today path page) : e.page = path := by
  unfold ofPage at h
  rcases List.mem_append.mp h with h | h
  · obtain ⟨date, -, rfl⟩ := List.mem_map.mp h
    rfl
  · obtain ⟨task, -, rfl⟩ := List.mem_map.mp h
    rfl

theorem ofPage_eq (path : String) (page : Document) :
    ofPage today path page =
      (birthday? today page).toList.map (fun date => ⟨path, none, date⟩) ++
        (page.parts.filterMap fun part => task? part.element).map
          fun (date, description) => ⟨path, description, date⟩ := by
  rw [ofPage, Document.all_eq_filterMap_parts]

theorem filter_ofPage_self (path : String) (page : Document) :
    (ofPage today path page).filter (·.page = path) = ofPage today path page :=
  List.filter_eq_self.mpr fun _ he => decide_eq_true (page_of_mem_ofPage he)

theorem filter_ofPage_of_ne {path other : String} (h : other ≠ path) (page : Document) :
    (ofPage today other page).filter (·.page = path) = [] :=
  List.filter_eq_nil_iff.mpr fun _ he => by simpa [page_of_mem_ofPage he] using h

/-- The events of one page are those that are found in it. -/
theorem filter_page (h : PageOrder.Ascends r.paths) {path : String} {page : Document}
    (hp : (path, page) ∈ r.pages) :
    (ofRepository today r).filter (·.page = path) = ofPage today path page := by
  obtain ⟨pages⟩ := r
  rw [ofRepository, List.filter_flatMap]
  dsimp only at hp ⊢
  induction pages with
  | nil => cases hp
  | cons first rest ih =>
    obtain ⟨hfirst, hrest⟩ := List.pairwise_cons.mp h
    rw [List.flatMap_cons]
    rcases List.mem_cons.mp hp with rfl | hp
    · have hothers : rest.flatMap (fun other =>
          (ofPage today other.1 other.2).filter (·.page = path)) = [] :=
        List.flatMap_eq_nil_iff.mpr fun other hother =>
          filter_ofPage_of_ne (hfirst other.1 (List.mem_map_of_mem hother)).ne' other.2
      rw [filter_ofPage_self, hothers, List.append_nil]
    · rw [filter_ofPage_of_ne (hfirst path (List.mem_map_of_mem hp)).ne, List.nil_append]
      exact ih hrest hp

theorem inPageOrder_ofRepository (today : Date) (h : PageOrder.Ascends r.paths) :
    InPageOrder today r (ofRepository today r) where
  stored e he := by
    obtain ⟨⟨path, page⟩, hp, he⟩ := List.mem_flatMap.mp he
    rw [page_of_mem_ofPage he]
    exact List.mem_map_of_mem hp
  pages := by
    refine List.pairwise_flatMap.mpr ⟨fun ⟨path, page⟩ _ => ?_, ?_⟩
    · refine List.pairwise_of_forall_mem_list fun a ha b hb => ?_
      rw [page_of_mem_ofPage ha, page_of_mem_ofPage hb]
    · refine (List.pairwise_map.mp h).imp fun {a b} hlt x hx y hy => ?_
      rw [page_of_mem_ofPage hx, page_of_mem_ofPage hy]
      exact le_of_lt hlt
  within path page hp := by
    rw [filter_page h hp, ofPage_eq]

end

/-! ## Tables -/

/-- Entries in the order of their dates, and those of one date in that of their events. -/
structure Arranged (today : Date) (r : Repository) (es sorted : List Entry) : Prop where
  perm : sorted.Perm es
  ascends : sorted.Pairwise fun a b => a.sortDate.compare b.sortDate ≠ .gt
  inPageOrder : ∀ entry ∈ es,
    InPageOrder today r ((sorted.filter (onDate entry.sortDate)).map Entry.event)

theorem arranged_chronological {today : Date} {r : Repository} {range : Range} {es : List Entry}
    (hr : PageOrder.Ascends r.paths) (h : entries today r range = .ok (some es)) :
    Arranged today r es (chronological es) where
  perm := perm_chronological es
  ascends := ascends_chronological (dated_of_entries h)
  inPageOrder entry hentry := by
    have hdated := dated_of_entries h
    rw [filter_chronological hdated (hdated entry hentry)]
    exact (inPageOrder_ofRepository today hr).sublist
      ((List.filter_sublist.map Entry.event).trans (events_sublist h))

/-- The table of a range has a row of headings and one row for each entry. The rows ascend by the dates
that they are sorted by, which `compare` orders like the calendar, and those of one date are in the order
of the paths of their pages and, within a page, have its birthday before its tasks. -/
theorem rows_ascend_by_date_and_then_by_page_and_place (pages : List (String × Document))
    (settings : Settings) (today : Date) {range : Range} {es : List Entry}
    (h : entries today (.ofPages pages) range = .ok (some es)) :
    TotallyPreordered (es.map Entry.sortDate) ∧
      (∀ x y : Date, (PartialDate.ofDate x).compare (.ofDate y) = compare x.number y.number) ∧
      ∃ sorted : List Entry,
        table settings es = .node (.table (some "geburtstagsliste")
          (headings settings :: sorted.map row)) none ∧
        Arranged today (.ofPages pages) es sorted := by
  have hdates : ∀ d ∈ es.map Entry.sortDate, d.year.isSome := by
    simpa using dated_of_entries h
  exact ⟨totallyPreordered_of_dated hdates, compare_days, chronological es, rfl,
    arranged_chronological (Repository.ascends_ofPages pages) h⟩

/-- Two pages with events of one day, of which the one that was stored last comes first. -/
def onOneDay : List (String × Document) :=
  [("/B", .node (.leaf (.task .open (some "16.03.") none)) none),
    ("/A", Document.group
      [.node (.leaf (.task .open (some "03.2024") none)) none, contactBorn "16.03.1980"])]

theorem birthdays_and_tasks_of_one_day_are_arranged :
    ∃ es sorted, entries ides (.ofPages onOneDay) (.year 2024) = .ok (some es) ∧ es.length = 3 ∧
      table .standard es = .node (.table (some "geburtstagsliste")
        (headings .standard :: sorted.map row)) none ∧
      Arranged ides (.ofPages onOneDay) es sorted := by
  obtain ⟨es, hentries, hlength⟩ :
      ∃ es, entries ides (.ofPages onOneDay) (.year 2024) = .ok (some es) ∧ es.length = 3 :=
    ⟨_, rfl, rfl⟩
  obtain ⟨-, -, sorted, htable, harranged⟩ :=
    rows_ascend_by_date_and_then_by_page_and_place onOneDay .standard ides hentries
  exact ⟨es, sorted, hentries, hlength, htable, harranged⟩

end Event

end WikiHtml
