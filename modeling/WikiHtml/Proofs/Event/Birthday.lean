-- The birthday of a page. It is looked for from the first contact on, and the search does not end with
-- the contact: a later day of birth takes the place of the one in it, and a later day of death counts.
import Mathlib.Data.List.Induction
import WikiHtml.Proofs.Element.Kinds
import WikiHtml.Proofs.Event.Window

namespace WikiHtml.Event

open Calendar Document

/-! ## What tags tell -/

/-- Whether a tag tells a day of birth. -/
def tellsBirth (tag : Tag) : Bool :=
  tag.name = "geburtstag" || tag.name = "geburtsdatum"

/-- Whether a tag tells a day of death. -/
def tellsDeath (tag : Tag) : Bool :=
  tag.name = "todestag"

/-- The last tag that tells a day of birth. -/
def lastBirth? (tags : List Tag) : Option Tag :=
  (tags.filter tellsBirth).getLast?

/-- The date that a tag tells on a day. -/
def toldDate? (today : Date) (tag : Tag) : Option PartialDate :=
  (Contact.fieldText? today tag).bind date?

/-- The birthday that the tags of a contact tell: the last one, unless there is a day of death. -/
def toldBirthday? (today : Date) (tags : List Tag) : Option PartialDate :=
  if tags.any tellsDeath then none else (lastBirth? tags).bind (toldDate? today)

section Search

variable {today : Date}

theorem lastBirth?_append (tags later : List Tag) :
    lastBirth? (tags ++ later) = (lastBirth? later).or (lastBirth? tags) := by
  rw [lastBirth?, List.filter_append, List.getLast?_append, lastBirth?, lastBirth?]

theorem tells_of_contact {tag : Tag} (h : tag.name = Contact.tagName) :
    tellsBirth tag = false ∧ tellsDeath tag = false := by
  rw [tellsBirth, tellsDeath, h]
  decide

theorem tellsDeath_of_tellsBirth {tag : Tag} (h : tellsBirth tag = true) :
    tellsDeath tag = false := by
  rw [tellsBirth, Bool.or_eq_true, decide_eq_true_iff, decide_eq_true_iff] at h
  rcases h with h | h <;>
    · rw [tellsDeath, h]
      decide

/-- Within a contact a tag tells a birthday, or a death, or neither. -/
theorem next_inContact (birthday : Option String) (died : Bool) (tag : Tag) :
    BirthdaySearch.next today ⟨true, birthday, died⟩ tag =
      ⟨true, if tellsBirth tag then Contact.fieldText? today tag else birthday,
        died || tellsDeath tag⟩ := by
  by_cases hcontact : tag.name = Contact.tagName
  · obtain ⟨hbirth, hdeath⟩ := tells_of_contact hcontact
    simp [BirthdaySearch.next, hcontact, hbirth, hdeath]
  · have hnext : BirthdaySearch.next today ⟨true, birthday, died⟩ tag =
        if tellsBirth tag then ⟨true, Contact.fieldText? today tag, died⟩
        else if tag.name = "todestag" then ⟨true, birthday, true⟩ else ⟨true, birthday, died⟩ :=
      if_neg hcontact
    rw [hnext]
    split
    · rename_i hbirth
      rw [tellsDeath_of_tellsBirth hbirth, Bool.or_false]
    · split
      · rename_i hdeath
        simp [tellsDeath, hdeath]
      · rename_i hdeath
        simp [tellsDeath, hdeath]

theorem foldl_next (tags : List Tag) :
    tags.foldl (BirthdaySearch.next today) ⟨true, none, false⟩ =
      ⟨true, (lastBirth? tags).bind (Contact.fieldText? today), tags.any tellsDeath⟩ := by
  induction tags using List.reverseRecOn with
  | nil => rfl
  | append_singleton tags tag ih =>
    rw [List.foldl_append, ih, List.foldl_cons, List.foldl_nil, next_inContact,
      lastBirth?_append, List.any_append, List.any_cons, List.any_nil, Bool.or_false]
    have hlast : lastBirth? [tag] = if tellsBirth tag then some tag else none := by
      cases h : tellsBirth tag <;> simp [lastBirth?, h]
    rw [hlast]
    split <;> rfl

/-- Before a contact has come no tag tells anything. -/
theorem foldl_next_outside {tags : List Tag} (h : ∀ tag ∈ tags, tag.name ≠ Contact.tagName) :
    tags.foldl (BirthdaySearch.next today) ⟨false, none, false⟩ = ⟨false, none, false⟩ := by
  induction tags with
  | nil => rfl
  | cons tag rest ih =>
    obtain ⟨htag, hrest⟩ := List.forall_mem_cons.mp h
    have hnext : BirthdaySearch.next today ⟨false, none, false⟩ tag = ⟨false, none, false⟩ := by
      simp [BirthdaySearch.next, htag]
    rw [List.foldl_cons, hnext, ih hrest]

end Search

/-! ## The first contact -/

/-- Whether a document is a contact. -/
def isContact (d : Document) : Bool :=
  d.element.isWrap Wrapper.isContact

/-- The tags without a name space among documents. -/
def tagsOf (documents : List Document) : List Tag :=
  documents.filterMap fun d => bareTag? d.element

/-- The parts of a page in their order: those before its first contact, the parts of that, and those
after it. -/
structure FirstContact (page : Document) (before : List Document) (contact : Document)
    (after : List Document) : Prop where
  parts : page.parts = before ++ contact.parts ++ after
  isContact : isContact contact = true
  first : ∀ d ∈ before, Event.isContact d = false

section Contact

variable {today : Date} {page contact : Document} {before after : List Document}

theorem isContact_iff {d : Document} :
    isContact d = true ↔ ∃ tag, bareTag? d.element = some tag ∧ tag.name = Contact.tagName := by
  unfold isContact
  rcases d.element with members | ⟨w, child⟩ | ⟨params, rows⟩ | l
  · simp [Element.isWrap, bareTag?, tag?]
  · cases w with
    | xmlTag space name options =>
      cases space <;> simp [Element.isWrap, Wrapper.isContact, bareTag?, tag?]
    | _ => simp [Element.isWrap, Wrapper.isContact, bareTag?, tag?]
  · simp [Element.isWrap, bareTag?, tag?]
  · simp [Element.isWrap, bareTag?, tag?]

theorem name_ne_of_mem_tagsOf {documents : List Document} (h : ∀ d ∈ documents, isContact d = false) :
    ∀ tag ∈ tagsOf documents, tag.name ≠ Contact.tagName := by
  intro tag htag hname
  obtain ⟨d, hd, hbare⟩ := List.mem_filterMap.mp htag
  have hcontact : isContact d = true := isContact_iff.mpr ⟨tag, hbare, hname⟩
  rw [h d hd] at hcontact
  cases hcontact

theorem all_bareTag (page : Document) : page.all bareTag? = tagsOf page.parts :=
  all_eq_filterMap_parts bareTag? page

theorem birthday?_of_no_contact (h : ∀ d ∈ page.parts, isContact d = false) :
    birthday? today page = none := by
  unfold birthday?
  rw [all_bareTag, foldl_next_outside (name_ne_of_mem_tagsOf h)]
  rfl

/-- The birthday of a page is told by the tags of its first contact and by those after it. -/
theorem FirstContact.birthday? (h : FirstContact page before contact after) :
    Event.birthday? today page = toldBirthday? today (tagsOf contact.parts ++ tagsOf after) := by
  obtain ⟨tag, hbare, hname⟩ := isContact_iff.mp h.isContact
  obtain ⟨inside, htags⟩ : ∃ inside, tagsOf contact.parts = tag :: inside := by
    obtain ⟨e, span⟩ := contact
    rw [parts_node]
    exact ⟨_, List.filterMap_cons_some hbare⟩
  have hcome : ∀ died : Bool, BirthdaySearch.next today ⟨died, none, false⟩ tag =
      ⟨true, none, false⟩ := fun died => if_pos hname
  have hfold : (tagsOf page.parts).foldl (BirthdaySearch.next today) ⟨false, none, false⟩ =
      (tagsOf contact.parts ++ tagsOf after).foldl (BirthdaySearch.next today)
        ⟨true, none, false⟩ := by
    have hsplit : tagsOf page.parts = tagsOf before ++ (tagsOf contact.parts ++ tagsOf after) := by
      rw [h.parts, tagsOf, List.filterMap_append, List.filterMap_append, List.append_assoc]
      rfl
    rw [hsplit, List.foldl_append, foldl_next_outside (name_ne_of_mem_tagsOf h.first), htags,
      List.cons_append, List.foldl_cons, List.foldl_cons, hcome, hcome]
  unfold Event.birthday? toldBirthday?
  rw [all_bareTag, hfold, foldl_next]
  dsimp only
  rw [Option.bind_assoc]
  rfl

theorem birthday?_contact (h : isContact contact = true) :
    birthday? today contact = toldBirthday? today (tagsOf contact.parts) := by
  have hself : FirstContact contact [] contact [] := ⟨by simp, h, nofun⟩
  rw [hself.birthday?, show tagsOf [] = [] from rfl, List.append_nil]

end Contact

/-! ## Later tags -/

/-- What comes after a contact changes its birthday: there is a day of death, and the contact has a
birthday; or no day of death is told and the last day of birth is another date. -/
def Overridden (today : Date) (contact : Document) (after : List Document) : Prop :=
  ((tagsOf after).any tellsDeath = true ∧ birthday? today contact ≠ none) ∨
    ((tagsOf (contact.parts ++ after)).any tellsDeath = false ∧
      ∃ tag, lastBirth? (tagsOf after) = some tag ∧ toldDate? today tag ≠ birthday? today contact)

/-- Later tags count for the birthday of a contact exactly if they override it. -/
theorem toldBirthday?_append {today : Date} {contact : Document} (h : isContact contact = true)
    (after : List Document) :
    toldBirthday? today (tagsOf contact.parts ++ tagsOf after) = birthday? today contact ↔
      ¬Overridden today contact after := by
  have htags : tagsOf (contact.parts ++ after) = tagsOf contact.parts ++ tagsOf after :=
    List.filterMap_append
  rw [Overridden, htags, birthday?_contact h]
  generalize tagsOf contact.parts = own, tagsOf after = later
  unfold toldBirthday?
  rw [List.any_append, lastBirth?_append]
  rcases hlater : later.any tellsDeath with _ | _
  · rcases hown : own.any tellsDeath with _ | _
    · cases lastBirth? later <;> simp
    · simp
  · rw [Bool.or_true, if_pos rfl]
    generalize (if own.any tellsDeath = true then none
      else (lastBirth? own).bind (toldDate? today)) = told
    cases told <;> simp

/-- The birthday of a page is that of its first contact unless what comes after that contact overrides
it; what comes before it, or is around it, never counts. A page without a contact has no birthday. -/
theorem birthdays_are_those_of_first_contacts_unless_overridden (today : Date) (page : Document) :
    ((∀ d ∈ page.parts, isContact d = false) ∧ birthday? today page = none) ∨
      ∃ before contact after, FirstContact page before contact after ∧
        (birthday? today page = birthday? today contact ↔ ¬Overridden today contact after) := by
  rcases hany : page.parts.any isContact with _ | _
  · have hnone : ∀ d ∈ page.parts, isContact d = false := by simpa using hany
    exact .inl ⟨hnone, birthday?_of_no_contact hnone⟩
  · obtain ⟨before, contact, after, hparts, hcontact, hbefore⟩ := exists_first_part hany
    have hfirst : FirstContact page before contact after := ⟨hparts, hcontact, hbefore⟩
    refine .inr ⟨before, contact, after, hfirst, ?_⟩
    rw [hfirst.birthday?]
    exact toldBirthday?_append hcontact after

/-- A contact who was born on a day. -/
def contactBorn (day : String) : Document :=
  wrapped (.xmlTag none Contact.tagName []) (wrapped (.xmlTag none "geburtstag" []) (text day))

/-- Of two contacts in a page the birthday of the second one is listed. -/
theorem the_last_contact_has_its_birthday_listed :
    let contact := contactBorn "16.03.1980"
    let page := group [contact, contactBorn "20.03.1990"]
    FirstContact page [page] contact (contactBorn "20.03.1990").parts ∧
      birthday? ides contact = some ⟨some 16, some 3, some 1980⟩ ∧
      birthday? ides page = some ⟨some 20, some 3, some 1990⟩ :=
  ⟨⟨rfl, rfl, by decide⟩, rfl, rfl⟩

end WikiHtml.Event
