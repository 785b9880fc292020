-- What becomes of a tag for a list of events. It stays if its options say no range or a window beyond
-- the calendar, except that the pass fails if a count of days is too large to find that out. Ages are
-- counted by words of 32 bits, so the years have to lie close enough together for these.
import WikiHtml.Proofs.Event.Window
import WikiHtml.Substitution.Pass

namespace WikiHtml.Substitution

open Calendar Event

/-! ## Options -/

/-- Whether an option is given and its text is no number of so many bits. -/
def NoNumber (options : Options) (key : String) (bits : Nat) : Prop :=
  ∃ text, options.get? key = some text ∧ Text.signed? bits text.toList = none

/-- Whether options say no range: the year is no number, or there is no year and one of the counts of
days is no number. -/
def SaysNoRange (options : Options) : Prop :=
  NoNumber options "jahr" 32 ∨
    options.get? "jahr" = none ∧
      (NoNumber options "tagedanach" 64 ∨ NoNumber options "tagedavor" 64)

variable {options : Options}

theorem days?_eq_none (key : String) (standard : Int) :
    days? options key standard = none ↔ NoNumber options key 64 := by
  unfold days? NoNumber
  cases options.get? key <;> simp

theorem ofOptions?_eq_none : Range.ofOptions? options = none ↔ SaysNoRange options := by
  unfold Range.ofOptions? SaysNoRange
  rw [← days?_eq_none "tagedanach" 3, ← days?_eq_none "tagedavor" 10, NoNumber]
  rcases options.get? "jahr" with _ | text
  · cases days? options "tagedanach" 3 <;> cases days? options "tagedavor" 10 <;> simp
  · simp

/-! ## Ages -/

/-- Whether a count of years fits into a word of 32 bits. -/
def FitsAge (years : Int) : Prop :=
  -2 ^ 31 ≤ years ∧ years < 2 ^ 31

/-- The years into which a range puts events: its own, or those of its first and of its last day. -/
def ListsIn (today : Date) : Range → Int → Prop
  | .year year, listed => listed = year
  | .around back ahead, listed =>
    ∃ day : Date, day.year = listed ∧
      (day.number = today.number - back ∨ day.number = today.number + ahead)

/-- Whether the years of all events lie so close to those of a range that every difference of two of them
fits into its word. -/
def YearsFit (today : Date) (r : Repository) (range : Range) : Prop :=
  ∀ e ∈ ofRepository today r, ∀ since, e.date.year = some since →
    ∀ year, ListsIn today range year → FitsAge (year - since)

section Ages

variable {today first last : Date} {r : Repository} {range : Range} {e : Event} {entry : Entry}
  {year : Int}

theorem YearsFit.ageIn (h : YearsFit today r range) (he : e ∈ ofRepository today r)
    (hyear : ListsIn today range year) {age : Int} (hage : ageIn e year = some age) :
    FitsAge age := by
  obtain ⟨since, hsince, rfl⟩ := Option.map_eq_some_iff.mp hage
  exact h e he since hsince year hyear

theorem age_of_entryInYear? (h : entryInYear? year e = some entry) : entry.age = ageIn e year := by
  unfold entryInYear? at h
  split at h
  · cases h
  · obtain rfl := Option.some.inj h
    rfl

/-- The age in an entry of a window is counted in the year of its first or of its last day. -/
theorem age_of_entryInWindow? (h : entryInWindow? today first last e = some entry) :
    ∃ year, (year = first.year ∨ year = last.year) ∧ entry.age = ageIn e year := by
  unfold entryInWindow? at h
  simp only [Option.bind_eq_bind, Option.bind_eq_some_iff, Option.pure_def] at h
  obtain ⟨year, hfind, h⟩ := h
  split at h
  · cases h
  · obtain rfl := Option.some.inj h
    exact ⟨year, by simpa using List.mem_of_find?_eq_some hfind, rfl⟩

/-- The ages in the entries of a range fit into their words if the years lie close enough together. -/
theorem ages_of_entries {es : List Entry} (h : YearsFit today r range)
    (hes : entries today r range = .ok (some es)) :
    ∀ entry ∈ es, ∀ age, entry.age = some age → FitsAge age := by
  intro entry hentry age hage
  cases range with
  | year year =>
    obtain rfl := Option.some.inj (Except.ok.inj hes)
    obtain ⟨e, he, hentry⟩ := List.mem_filterMap.mp hentry
    rw [age_of_entryInYear? hentry] at hage
    exact h.ageIn he rfl hage
  | around back ahead =>
    have hleaves : ¬(Range.around back ahead).Leaves today := by
      rcases entries_cases today r (.around back ahead) with ⟨_, cause, hno⟩ | ⟨_, _, hno⟩ |
        ⟨hleaves, _⟩
      · simp [hno] at hes
      · simp [hno] at hes
      · exact hleaves
    obtain ⟨hback, hahead⟩ := not_not.mp hleaves
    obtain ⟨first, last, hfirst, hlast, hwindow⟩ := window_of_inCalendar hback hahead
    obtain rfl := Option.some.inj (Except.ok.inj ((entries_of_window hwindow).symm.trans hes))
    obtain ⟨e, he, hentry⟩ := List.mem_filterMap.mp hentry
    obtain ⟨year, hyear, heq⟩ := age_of_entryInWindow? hentry
    rw [heq] at hage
    refine h.ageIn he ?_ hage
    rcases hyear with rfl | rfl
    · exact ⟨first, rfl, .inl hfirst⟩
    · exact ⟨last, rfl, .inr hlast⟩

end Ages

/-! ## Tags -/

section Tags

variable {t : Tree} {id : NodeId} {name : String} {child : Option NodeId}

/-- At a tag for a list of events the pass goes by what comes of its range. -/
theorem events_eq (r : Repository) (settings : Settings) (today : Date)
    (he : t.element id = .wrap (.xmlTag none name options) child) (hname : isEventTag name = true) :
    events r settings today t id =
      match Range.ofOptions? options with
      | none => .ok .keep
      | some range => (entries today r range).map fun es =>
          match es with
          | some es => .put (table settings es)
          | none => .keep := by
  unfold events
  simp only [he, hname, if_true]
  rcases Range.ofOptions? options with _ | range
  · rfl
  · dsimp only
    rcases entries today r range with cause | _ | es <;> rfl

/-- The pass fails at a tag whose counts of days are too large, keeps the others that say no range or
leave the calendar, and shows the table of the entries of all that are left. The years have to be such
that no difference of them is too large for an age. -/
theorem event_tags_show_tables_or_stay_unless_days_overflow (r : Repository) (settings : Settings)
    (today : Date) (he : t.element id = .wrap (.xmlTag none name options) child)
    (hname : isEventTag name = true)
    (hyears : ∀ range, Range.ofOptions? options = some range → YearsFit today r range) :
    ((∃ cause, events r settings today t id = .error cause) ↔
        ∃ range, Range.ofOptions? options = some range ∧ range.Overflows today) ∧
      (events r settings today t id = .ok .keep ↔
        SaysNoRange options ∨
          ∃ range, Range.ofOptions? options = some range ∧ range.Leaves today ∧
            ¬range.Overflows today) ∧
      ∀ range, Range.ofOptions? options = some range → ¬range.Leaves today →
        ∃ es, entries today r range = .ok (some es) ∧
          (∀ entry ∈ es, ∀ age, entry.age = some age → FitsAge age) ∧
          events r settings today t id = .ok (.put (table settings es)) := by
  rw [events_eq r settings today he hname, ← ofOptions?_eq_none]
  rcases hrange : Range.ofOptions? options with _ | range
  · exact ⟨⟨nofun, nofun⟩, ⟨fun _ => .inl rfl, fun _ => rfl⟩, nofun⟩
  · have hages (es : List Entry) (hes : entries today r range = .ok (some es)) :=
      ages_of_entries (hyears range hrange) hes
    simp only [Option.some_inj, exists_eq_left', reduceCtorEq, false_or, forall_eq']
    rcases entries_cases today r range with ⟨hover, cause, hes⟩ | ⟨hover, hleaves, hes⟩ |
      ⟨hleaves, es, hes⟩
    · simp [hes, hover, Range.leaves_of_overflows hover, Except.map]
    · simp [hes, hover, hleaves, Except.map]
    · have hfew := mt Range.leaves_of_overflows hleaves
      simpa [hes, hfew, hleaves, Except.map] using hages es hes

end Tags

/-- A tag for a list of events. -/
def eventTag (options : Options) : Document :=
  .node (.wrap (.xmlTag none "terminliste" options) none) none

/-- A tag for the events of 2024 shows the age of one from 1980. -/
theorem a_tag_for_a_year_shows_an_age :
    let r := oneTask "12.03.1980"
    let t := Tree.ofDocument (eventTag [("jahr", "2024")])
    (∀ range, Range.ofOptions? [("jahr", "2024")] = some range → YearsFit ides r range) ∧
      ∃ es, es.map Entry.age = [some 44] ∧
        events r .standard ides t 0 = .ok (.put (table .standard es)) := by
  intro r t
  have hyears (range : Range) (hrange : Range.ofOptions? [("jahr", "2024")] = some range) :
      YearsFit ides r range := by
    obtain rfl : Range.year 2024 = range := Option.some.inj hrange
    have hevents : ofRepository ides r = [⟨"/T", none, ⟨some 12, some 3, some 1980⟩⟩] := rfl
    simp [YearsFit, hevents, ListsIn, FitsAge]
  refine ⟨hyears, ?_⟩
  have htag : t.element 0 = .wrap (.xmlTag none "terminliste" [("jahr", "2024")]) none := rfl
  obtain ⟨-, -, hshown⟩ :=
    event_tags_show_tables_or_stay_unless_days_overflow r .standard ides htag rfl hyears
  obtain ⟨es, hes, -, hput⟩ := hshown (.year 2024) rfl id
  obtain rfl := Option.some.inj (Except.ok.inj hes)
  exact ⟨_, rfl, hput⟩

/-- The window of the most days that can be said leaves the calendar, and its tag does not stay. -/
theorem a_tag_with_most_days_fails :
    let options := [("tagedanach", "9223372036854775807")]
    let range : Range := .around 9223372036854775807 10
    Range.ofOptions? options = some range ∧ range.Leaves ides ∧
      events .empty .standard ides (Tree.ofDocument (eventTag options)) 0 =
        .error (.tooManyDays 9223372036854775807) := by
  intro options range
  have hleaves : ¬Date.InCalendar (ides.number - 9223372036854775807) := by decide
  have hmany : ¬Measured 9223372036854775807 := by
    unfold Measured
    omega
  refine ⟨rfl, fun h => hleaves h.1, ?_⟩
  have hrange : Range.ofOptions? options = some range := rfl
  rw [events_eq .empty .standard ides rfl rfl, hrange]
  simp only [range, entries, window, measured_of_not_measured hmany, bind, Except.bind, Except.map]

end WikiHtml.Substitution
