-- The card of a contact, built in the tree from the tags of its nodes. The description of an address is
-- copied, and stays in its place.
import WikiHtml.Building.Basic
import WikiHtml.Contact.Card

namespace WikiHtml.Building

open Calendar Contact Document

/-! ## Reading the tags of nodes -/

/-- Whether an element is a tag. -/
def isTag : Element NodeId → Bool
  | .wrap (.xmlTag _ _ _) _ => true
  | _ => false

/-- The tag that a node is, with what stands below it. -/
def tagAt? (t : Tree) (id : NodeId) : Option Tag :=
  (t.document? id).bind fun d => tag? d.element

/-- The outermost tags of a content. -/
def tagNodes (t : Tree) (content : Option NodeId) : List NodeId :=
  match content with
  | some id => t.outermost id isTag
  | none => []

/-- What the outermost tags of a content say. -/
def tagsAt (t : Tree) (content : Option NodeId) : List Tag :=
  (tagNodes t content).filterMap (tagAt? t)

/-- Whether a node is a tag of a name. -/
def isNamed (t : Tree) (name : String) (id : NodeId) : Bool :=
  (tagAt? t id).any (·.name == name)

/-- The node in the last description of an address. -/
def descriptionAt? (t : Tree) (content : Option NodeId) : Option NodeId :=
  ((tagNodes t content).filter (isNamed t "beschreibung")).getLast?.bind t.child?

/-- The address in a node, if that is valid. -/
def addressAt? (t : Tree) (today : Date) (id : NodeId) : Option (Address NodeId) := do
  let tag ← tagAt? t id
  if !isValid tag.options today then none
  else
    let content := t.child? id
    some (addressWith today (tagsAt t content) (descriptionAt? t content))

/-- The contact in the content of its tag. -/
def personAt (t : Tree) (today : Date) (content : Option NodeId) : Person NodeId :=
  let addresses := (tagNodes t content).filter (isNamed t "adresse")
  personOf today (tagsAt t content) (addresses.filterMap (addressAt? t today))

/-! ## Parts -/

/-- Values after a bold label, with commas between them; a value is linked if it has a URL. -/
def labelled (label : String) (values : List String) (url? : String → Option String) :
    Building NodeId :=
  let shown := values.map fun value =>
    match url? value with
    | some url => wrapped (.linkExternal url) (text value)
    | none => text value
  paragraph (wrapped .bold (text (label ++ ": ")) :: shown.intersperse (text ", "))

/-- Values that are not linked, after a bold label; nothing if there are none. -/
def unlinked (label : String) (values : List String) : List (Building NodeId) :=
  if values = [] then [] else [labelled label values fun _ => none]

/-- The accounts of each channel. -/
def channelParagraphs (channels : List (Channel × List String)) : List (Building NodeId) :=
  channels.map fun (channel, accounts) => labelled channel.label accounts channel.url?

/-- A space between two parts. -/
def gap : Building NodeId :=
  ofLeaf .verticalSpace

/-! ## Addresses -/

/-- Where an address is. -/
def location (a : Address NodeId) : List (Building NodeId) :=
  let lines := (a.name.toList ++ a.street.toList).map textParagraph
  let place := a.postcode.toList ++ a.city.toList
  let country := countryLine a
  lines ++ (if place = [] then [] else [textParagraph (" ".intercalate place)])
    ++ (if country = "" then [] else [textParagraph country])
    ++ (match a.description with
      | some description => [paragraph [wrapped .italic (copy description)]]
      | none => [])

/-- How to reach someone at an address. -/
def reach (a : Address NodeId) : List (Building NodeId) :=
  unlinked "Telefon" a.phones ++ unlinked "Fax" a.faxes ++ channelParagraphs a.channels
    ++ unlinked "Kategorien" a.categories

/-- A table of two columns. The lists of its cells are added behind the members of both. -/
def columns (left right : List NodeId) : Building NodeId := do
  let first ← add (.list left)
  let second ← add (.list right)
  let cells := [⟨false, none, some first⟩, ⟨false, none, some second⟩]
  add (.table (some "kontaktseite-adresse") [⟨none, cells⟩])

/-- The table of an address, if there is anything to show. -/
def addressTable (a : Address NodeId) : Building (Option NodeId) := do
  let location ← all (location a)
  let reach ← all (reach a)
  if location.isEmpty && reach.isEmpty then return none
  else return some (← columns location reach)

/-- The tables of addresses, each behind a gap. A table is added before the gap in front of it. -/
def addressTables : List (Address NodeId) → Building (List NodeId)
  | [] => return []
  | a :: rest => do
    match ← addressTable a with
    | none => addressTables rest
    | some table =>
      let space ← gap
      let others ← addressTables rest
      return space :: table :: others

/-! ## The card -/

/-- The pictures. -/
def pictures (photos : List String) : List (Building NodeId) :=
  if photos = [] then []
  else
    let images := photos.map fun url => ofLeaf (.image url [("class", "kontaktseite-bild")])
    [wrapped (.htmlTag "div" (some "class=\"kontaktseite-bilder\"")) (group images)]

/-- The days of birth and death, and the age. -/
def lifetime (today : Date) (p : Person NodeId) : List (Building NodeId) :=
  if p.birthday.isNone && p.deathDay.isNone then []
  else
    let birth := p.birthday.toList.map fun day => text ("* " ++ day)
    let between :=
      if p.birthday.isSome && p.deathDay.isSome then [ofLeaf (.html " &nbsp; ")] else []
    let death := p.deathDay.toList.flatMap fun day => [ofLeaf (.html "&dagger; "), text day]
    let age := (p.birthday.bind fun day => age? today day p.deathDay).toList.map fun age =>
      text (" (" ++ age ++ ")")
    [paragraph (birth ++ between ++ death ++ age)]

/-- The card of a contact. -/
def card (today : Date) (p : Person NodeId) : Building NodeId := do
  let front ← all (pictures p.photos
    ++ p.title.toList.map textParagraph
    ++ [paragraph [wrapped .bold (text (fullName p))]]
    ++ lifetime today p
    ++ (if p.channels = [] then [] else gap :: channelParagraphs p.channels))
  let tables ← addressTables p.addresses
  let categories ← all
    (if p.categories = [] then [] else gap :: unlinked "Kontakt-Kategorien" p.categories)
  add (.list (front ++ tables ++ categories))

end WikiHtml.Building
