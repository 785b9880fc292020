-- Tables of events: those of a year, or those of some days before and after today.
import WikiHtml.Event.Basic
import WikiHtml.Settings

namespace WikiHtml.Event

open Calendar Document

/-! ## Ranges -/

/-- Which events are listed: those of a year, or those from some days before today until some days
after it. -/
inductive Range where
  | year (year : Int)
  | around (daysBack daysAhead : Int)
  deriving DecidableEq, Repr

/-- The number of days that an option says, or the number that holds without it. -/
def days? (options : Options) (key : String) (standard : Int) : Option Int :=
  match options.get? key with
  | some text => Text.signed? 64 text.toList
  | none => some standard

/-- The range that the options of a tag say, unless one of them is no number. -/
def Range.ofOptions? (options : Options) : Option Range :=
  match options.get? "jahr" with
  | some text => (Text.signed? 32 text.toList).map .year
  | none => do return .around (← days? options "tagedanach" 3) (← days? options "tagedavor" 10)

/-! ## Entries -/

/-- Where an event lies, seen from today. -/
inductive Tense where
  | past
  | present
  | future
  deriving DecidableEq, Repr

/-- The class of the row of an event. -/
def Tense.cssName : Tense → String
  | .past => "past"
  | .present => "present"
  | .future => "future"

/-- The tense of a date, by how it compares to today. -/
def Tense.ofOrdering : Ordering → Tense
  | .lt => .past
  | .eq => .present
  | .gt => .future

/-- A row of the table: the event, the date that is shown and the one that it is sorted by, its
tense, and the years since the event. -/
structure Entry where
  event : Event
  shown : PartialDate
  sortDate : PartialDate
  tense : Option Tense
  age : Option Int

/-- The years since an event in a year, if the year of the event is known. They are taken to be few
enough for a word of 32 bits. -/
def ageIn (e : Event) (year : Int) : Option Int :=
  e.date.year.map fun since => year - since

/-- Whether an event lies in the future of a year. -/
def isUnborn (e : Event) (year : Int) : Bool :=
  match ageIn e year with
  | some age => age < 0
  | none => false

/-- The entry of an event in the table of a year, unless it lies in the future of the year. -/
def entryInYear? (year : Int) (e : Event) : Option Entry :=
  if isUnborn e year then none
  else
    let shown := e.date.withYear year
    some ⟨e, shown, shown, none, ageIn e year⟩

/-- Whether a date lies between two others, which belong to the range. -/
def isWithin (first last date : PartialDate) : Bool :=
  date.compare first != .lt && date.compare last != .gt

/-- The entry of an event in the table of the days from `first` to `last`. The event is put into
the year of the first day, or else into that of the last. -/
def entryInWindow? (today first last : Date) (e : Event) : Option Entry := do
  let inWindow (year : Int) :=
    isWithin (.ofDate first) (.ofDate last) (e.date.withYear year)
  let year ← [first.year, last.year].find? inWindow
  if isUnborn e year then none
  else
    let sortDate := e.date.withYear year
    let tense := Tense.ofOrdering (sortDate.compare (.ofDate today))
    return ⟨e, e.date, sortDate, some tense, ageIn e year⟩

/-- A count of days is too large to be measured in seconds by a word of 64 bits. -/
inductive Fault where
  | tooManyDays (days : Int)
  deriving DecidableEq, Repr

/-- The count of days, if it can be measured in seconds. -/
def measured (days : Int) : Except Fault Int :=
  let seconds := days * 86400
  let limit := Int.ofNat (Nat.pow 2 63)
  if -limit ≤ seconds && seconds < limit then .ok days else .error (.tooManyDays days)

/-- The days of a window, unless they leave the calendar. -/
def window (today : Date) (daysBack daysAhead : Int) : Except Fault (Option (Date × Date)) := do
  match today.addDays? (-(← measured daysBack)) with
  | none => return none
  | some first =>
    match today.addDays? (← measured daysAhead) with
    | none => return none
    | some last => return some (first, last)

/-- The entries of a range, unless it leaves the calendar. -/
def entries (today : Date) (r : Repository) : Range → Except Fault (Option (List Entry))
  | .year year => return some ((ofRepository today r).filterMap (entryInYear? year))
  | .around daysBack daysAhead => do
    match ← window today daysBack daysAhead with
    | none => return none
    | some (first, last) =>
      return some ((ofRepository today r).filterMap (entryInWindow? today first last))

/-- The entries in the order of their dates; those of one date stay in their order. -/
def chronological (es : List Entry) : List Entry :=
  es.mergeSort fun a b => a.sortDate.compare b.sortDate != .gt

/-! ## The table -/

/-- A heading of the table. -/
def heading (settings : Settings) (key : String) (params : Option String) : Cell Document :=
  ⟨true, params, some (text (settings.message key))⟩

/-- The row of headings. -/
def headings (settings : Settings) : Row Document :=
  ⟨none, [
    heading settings "TerminTransformer.table.date" none,
    heading settings "TerminTransformer.table.name" none,
    heading settings "TerminTransformer.table.age" (some "right")]⟩

/-- The cell of an age. -/
def ageCell : Option Int → Cell Document
  | some age => ⟨false, some "right", some (text (toString age))⟩
  | none => ⟨false, none, none⟩

/-- The row of an entry. -/
def row (e : Entry) : Row Document :=
  let name := e.event.description.getD (PagePath.name e.event.page)
  ⟨e.tense.map Tense.cssName, [
    ⟨false, e.shown.year.map fun _ => "right", some (text e.shown.shown)⟩,
    ⟨false, none, some (pageLink e.event.page name)⟩,
    ageCell e.age]⟩

/-- The table of entries. -/
def table (settings : Settings) (es : List Entry) : Document :=
  .node (.table (some "geburtstagsliste") (headings settings :: (chronological es).map row)) none

end WikiHtml.Event
