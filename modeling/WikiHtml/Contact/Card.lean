-- The card that shows a contact.
import WikiHtml.Calendar.Age
import WikiHtml.Contact.Person

namespace WikiHtml.Contact

open Calendar Document

/-! ## Parts -/

/-- Values after a bold label, with commas between them; a value is linked if it has a URL. -/
def labelled (label : String) (values : List String) (url? : String → Option String) : Document :=
  let shown := values.map fun value =>
    match url? value with
    | some url => wrapped (.linkExternal url) (text value)
    | none => text value
  paragraph (wrapped .bold (text (label ++ ": ")) :: shown.intersperse (text ", "))

/-- Values that are not linked, after a bold label; nothing if there are none. -/
def unlinked (label : String) (values : List String) : List Document :=
  if values = [] then [] else [labelled label values fun _ => none]

/-- The accounts of each channel. -/
def channelParagraphs (channels : List (Channel × List String)) : List Document :=
  channels.map fun (channel, accounts) => labelled channel.label accounts channel.url?

/-- A space between two parts. -/
def gap : Document :=
  ofLeaf .verticalSpace

/-! ## Addresses -/

/-- The country of an address, and in brackets its regions. -/
def countryLine {α : Type} (a : Address α) : String :=
  let country := a.country.getD ""
  let regions := a.state.toList ++ a.district.toList
  if regions = [] then country
  else country ++ (if country = "" then "" else " ") ++ "(" ++ ", ".intercalate regions ++ ")"

/-- Where an address is. -/
def location (a : Address Document) : List Document :=
  let lines := (a.name.toList ++ a.street.toList).map textParagraph
  let place := a.postcode.toList ++ a.city.toList
  let country := countryLine a
  lines ++ (if place = [] then [] else [textParagraph (" ".intercalate place)])
    ++ (if country = "" then [] else [textParagraph country])
    ++ (match a.description with
      | some description => [paragraph [wrapped .italic description]]
      | none => [])

/-- How to reach someone at an address. -/
def reach (a : Address Document) : List Document :=
  unlinked "Telefon" a.phones ++ unlinked "Fax" a.faxes ++ channelParagraphs a.channels
    ++ unlinked "Kategorien" a.categories

/-- The table of an address, if there is anything to show. -/
def addressTable? (a : Address Document) : Option Document :=
  let columns := [location a, reach a]
  if columns.all (·.isEmpty) then none
  else
    let cells := columns.map fun content => ⟨false, none, some (group content)⟩
    some (.node (.table (some "kontaktseite-adresse") [⟨none, cells⟩]) none)

/-! ## The card -/

/-- The pictures. -/
def pictures (photos : List String) : List Document :=
  if photos = [] then []
  else
    let images := photos.map fun url => ofLeaf (.image url [("class", "kontaktseite-bild")])
    [wrapped (.htmlTag "div" (some "class=\"kontaktseite-bilder\"")) (group images)]

/-- The whole name. -/
def fullName {α : Type} (p : Person α) : String :=
  let family := p.name.getD "" ++
    (match p.birthName with
      | some name => " (geb. " ++ name ++ ")"
      | none => "")
  let given :=
    if p.givenNames = [] then family
    else family ++ (if family = "" then "" else ", ") ++ " ".intercalate p.givenNames
  if p.nicknames = [] then given else given ++ " (" ++ ", ".intercalate p.nicknames ++ ")"

/-- The age on the day of death, or else today. -/
def age? (today : Date) (birthday : String) (deathDay : Option String) : Option String := do
  let birth ← Date.parse? birthday
  let day ← match deathDay with
    | some text => Date.parse? text
    | none => some today
  return ageText birth day

/-- The days of birth and death, and the age. -/
def lifetime (today : Date) (p : Person Document) : List Document :=
  if p.birthday.isNone && p.deathDay.isNone then []
  else
    let birth := p.birthday.toList.map fun day => text ("* " ++ day)
    let between :=
      if p.birthday.isSome && p.deathDay.isSome then [ofLeaf (.html " &nbsp; ")] else []
    let death := p.deathDay.toList.flatMap fun day => [ofLeaf (.html "&dagger; "), text day]
    let age := (p.birthday.bind fun day => age? today day p.deathDay).toList.map fun age =>
      text (" (" ++ age ++ ")")
    [paragraph (birth ++ between ++ death ++ age)]

/-- The card of a contact. -/
def card (today : Date) (p : Person Document) : Document :=
  group (pictures p.photos
    ++ p.title.toList.map textParagraph
    ++ [paragraph [wrapped .bold (text (fullName p))]]
    ++ lifetime today p
    ++ (if p.channels = [] then [] else gap :: channelParagraphs p.channels)
    ++ (p.addresses.filterMap addressTable?).flatMap (fun table => [gap, table])
    ++ (if p.categories = [] then [] else gap :: unlinked "Kontakt-Kategorien" p.categories))

end WikiHtml.Contact
