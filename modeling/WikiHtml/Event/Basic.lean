-- The events of the stored pages: the birthday of a living contact, and the tasks that are not done
-- and have a date.
import WikiHtml.Calendar.PartialDate
import WikiHtml.Contact.Person
import WikiHtml.Repository

namespace WikiHtml

open Calendar Document

/-- Something that happens on a date, in a page. -/
structure Event where
  page : String
  description : Option String
  date : PartialDate

namespace Event

/-- Whether a date can be put into a calendar: it has a month or a year. -/
def isUsable (d : PartialDate) : Bool :=
  d.month.isSome || d.year.isSome

/-- The date of a text, if it can be put into a calendar. -/
def date? (text : String) : Option PartialDate :=
  (PartialDate.parse? text).filter isUsable

/-! ## Birthdays -/

/-- What the tags of a page tell about a birthday: whether a contact has come, the text of the day,
and whether the contact has died. -/
structure BirthdaySearch where
  inContact : Bool
  birthday : Option String
  died : Bool

/-- Reads the next tag. A later tag replaces what an earlier one said. -/
def BirthdaySearch.next (today : Date) (s : BirthdaySearch) (tag : Tag) : BirthdaySearch :=
  if tag.name = Contact.tagName then { s with inContact := true }
  else if !s.inContact then s
  else if tag.name = "geburtstag" || tag.name = "geburtsdatum" then
    { s with birthday := Contact.fieldText? today tag }
  else if tag.name = "todestag" then { s with died := true }
  else s

/-- A tag of the source without a name space. -/
def bareTag? (e : Element Document) : Option Tag :=
  (tag? e).filter (·.space.isNone)

/-- The birthday of a living contact in a page. -/
def birthday? (today : Date) (page : Document) : Option PartialDate :=
  let found := (page.all bareTag?).foldl (BirthdaySearch.next today) ⟨false, none, false⟩
  if found.died then none else found.birthday.bind date?

/-! ## Tasks -/

/-- The date and the description of a task that is not done. -/
def task? : Element Document → Option (PartialDate × Option String)
  | .leaf (.task state schedule description) =>
    if state = .closed then none
    else ((schedule.bind date?)).map fun date => (date, description)
  | _ => none

/-! ## All events -/

/-- The events of a page, the birthday first and then the tasks in their order. -/
def ofPage (today : Date) (path : String) (page : Document) : List Event :=
  (birthday? today page).toList.map (fun date => ⟨path, none, date⟩)
    ++ (page.all task?).map fun (date, description) => ⟨path, description, date⟩

/-- The events of all stored pages. -/
def ofRepository (today : Date) (r : Repository) : List Event :=
  r.pages.flatMap fun (path, page) => ofPage today path page

end Event

end WikiHtml
