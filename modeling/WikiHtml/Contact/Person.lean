-- What the tags of a contact say. Of a field with one value the last tag counts; a tag whose time
-- is over says nothing.
import WikiHtml.Calendar.Date
import WikiHtml.Contact.Channel
import WikiHtml.Document.Build

namespace WikiHtml.Contact

open Calendar Document

/-- The name of the tag around a contact. -/
def tagName : String := "kontakt"

/-- The option that says until when a tag is valid. -/
def validUntil : String := "gültigbis"

/-! ## Tags -/

/-- Whether a tag is valid on a day: it says nothing about it, or it names a later day. -/
def isValid (options : Options) (today : Date) : Bool :=
  match options.get? validUntil with
  | none => true
  | some text =>
    match Date.parse? text with
    | some last => today.isBefore last
    | none => false

/-- The text of a valid tag, if it has any. -/
def fieldText? (today : Date) (tag : Tag) : Option String :=
  if isValid tag.options today && tag.text != "" then some tag.text else none

/-- The outermost tags of a content. -/
def fields (content : Option Document) : List Tag :=
  match content with
  | some document => document.outermost tag?
  | none => []

/-- The last tag of a name. -/
def lastTag? (tags : List Tag) (name : String) : Option Tag :=
  (tags.filter (·.name == name)).getLast?

/-- The text of the last tag of a name. -/
def single? (today : Date) (tags : List Tag) (name : String) : Option String :=
  (lastTag? tags name).bind (fieldText? today)

/-- The texts of all tags of a name. -/
def several (today : Date) (tags : List Tag) (name : String) : List String :=
  (tags.filter (·.name == name)).filterMap (fieldText? today)

/-- The accounts of a channel. -/
def accounts (today : Date) (tags : List Tag) (channel : Channel) : List String :=
  several today tags channel.tagName

/-- The channels with accounts, in the order in which they are shown. -/
def reachable (today : Date) (tags : List Tag) : List (Channel × List String) :=
  (Channel.all.map fun channel => (channel, accounts today tags channel)).filter (·.2 != [])

/-! ## People and their addresses -/

/-- An address of a contact. Its description is what stands in the page, as a document or by the
number of a node. -/
structure Address (α : Type) where
  name : Option String
  street : Option String
  postcode : Option String
  city : Option String
  country : Option String
  state : Option String
  district : Option String
  phones : List String
  faxes : List String
  channels : List (Channel × List String)
  description : Option α
  categories : List String

/-- A contact. -/
structure Person (α : Type) where
  name : Option String
  birthName : Option String
  givenNames : List String
  nicknames : List String
  title : Option String
  birthday : Option String
  deathDay : Option String
  photos : List String
  channels : List (Channel × List String)
  addresses : List (Address α)
  categories : List String

section

variable {α : Type}

/-- The address that tags make, with the given description. -/
def addressWith (today : Date) (tags : List Tag) (description : Option α) : Address α :=
  { name := single? today tags "name"
    street := single? today tags "straße"
    postcode := single? today tags "plz"
    city := single? today tags "ort"
    country := single? today tags "land"
    state := single? today tags "bundesland"
    district := single? today tags "bezirk"
    phones := several today tags "telefon"
    faxes := several today tags "fax"
    channels := reachable today tags
    description := description
    categories := several today tags "kategorie" }

/-- The contact that tags make, with the given addresses. -/
def personOf (today : Date) (tags : List Tag) (addresses : List (Address α)) : Person α :=
  { name := single? today tags "name"
    birthName := single? today tags "geburtsname"
    givenNames := several today tags "vorname"
    nicknames := several today tags "rufname"
    title := single? today tags "titel"
    birthday := single? today tags "geburtstag"
    deathDay := single? today tags "todestag"
    photos := several today tags "foto"
    channels := reachable today tags
    addresses := addresses
    categories := several today tags "kategorie" }

end

/-- What stands in the last description. -/
def description? (tags : List Tag) : Option Document :=
  (lastTag? tags "beschreibung").bind (·.child)

/-- The address that tags make. -/
def addressOf (today : Date) (tags : List Tag) : Address Document :=
  addressWith today tags (description? tags)

/-- The address in a tag, if that is valid. -/
def address? (today : Date) (tag : Tag) : Option (Address Document) :=
  if !isValid tag.options today then none else some (addressOf today (fields tag.child))

/-- The contact in the content of its tag. -/
def person (today : Date) (content : Option Document) : Person Document :=
  let tags := fields content
  personOf today tags ((tags.filter (·.name == "adresse")).filterMap (address? today))

end WikiHtml.Contact
