-- Contacts with tags that have expired. What such a tag says is not shown, but where one value is
-- shown it still takes the place of the tags before it; and a description is shown in any case.
import WikiHtml.Contact.Card
import WikiHtml.Proofs.Calendar.Days
import WikiHtml.Proofs.Document.Tags

namespace WikiHtml.Contact

open Calendar Document

/-! ## Contents without expired tags -/

/-- A tag, if it is valid. -/
def ifValid (today : Date) (tag : Tag) : Option Tag :=
  if isValid tag.options today then some tag else none

/-- The tags that are valid. -/
def validTags (today : Date) (tags : List Tag) : List Tag :=
  tags.filterMap (ifValid today)

/-- A content with its outermost tags changed, or taken out where `edit` gives none. -/
def edited (edit : Tag → Option Tag) (content : Option Document) : Option Document :=
  content.bind (editTags edit)

/-- A tag of a contact with the outermost tags changed in it if it is an address. -/
def inAddress (edit : Tag → Option Tag) (tag : Tag) : Tag :=
  if tag.name = "adresse" then { tag with child := edited edit tag.child } else tag

/-- The content of a contact with its tags changed by `edit`, and those of its addresses by `inner`.
-/
def editedContact (edit inner : Tag → Option Tag) (content : Option Document) : Option Document :=
  edited (fun tag => (edit tag).map (inAddress inner)) content

/-- The content of a contact without the tags that have expired. -/
def withoutExpired (today : Date) (content : Option Document) : Option Document :=
  editedContact (ifValid today) (ifValid today) content

theorem fields_edited (edit : Tag → Option Tag) (content : Option Document) :
    fields (edited edit content) = (fields content).filterMap edit := by
  rcases content with _ | d
  · rfl
  · rw [fields, ← outermost_editTags]
    cases h : editTags edit d <;> simp [edited, fields, h]

/-! ## Tags of a name -/

section

variable {edit : Tag → Option Tag} {today : Date} {name : String}

/-- Tags keep their names when they are changed. -/
def KeepsNames (edit : Tag → Option Tag) : Prop :=
  ∀ tag tag', edit tag = some tag' → tag'.name = tag.name

theorem named_filterMap (hname : KeepsNames edit) (tags : List Tag) :
    (tags.filterMap edit).filter (·.name == name) =
      (tags.filter (·.name == name)).filterMap edit := by
  induction tags with
  | nil => rfl
  | cons tag rest ih =>
    cases h : edit tag with
    | none =>
      by_cases hn : tag.name = name <;> simp [h, hn, ih]
    | some tag' =>
      have hkept := hname tag tag' h
      by_cases hn : tag.name = name <;> simp [h, hn, hkept, ih]

theorem named_congr {edit' : Tag → Option Tag} (hname : KeepsNames edit)
    (hname' : KeepsNames edit') (h : ∀ tag, tag.name = name → edit tag = edit' tag)
    (tags : List Tag) :
    (tags.filterMap edit).filter (·.name == name) =
      (tags.filterMap edit').filter (·.name == name) := by
  rw [named_filterMap hname, named_filterMap hname']
  refine List.filterMap_congr fun tag htag => h tag ?_
  simpa using (List.mem_filter.mp htag).2

/-- Where all values are shown, tags may be taken out that say nothing. -/
theorem several_filterMap (hname : KeepsNames edit)
    (h : ∀ tag, tag.name = name → (edit tag).bind (fieldText? today) = fieldText? today tag)
    (tags : List Tag) : several today (tags.filterMap edit) name = several today tags name := by
  rw [several, several, named_filterMap hname, List.filterMap_filterMap]
  refine List.filterMap_congr fun tag htag => h tag ?_
  simpa using (List.mem_filter.mp htag).2

theorem reachable_filterMap (hname : KeepsNames edit)
    (h : ∀ channel : Channel, ∀ tag, tag.name = channel.tagName →
      (edit tag).bind (fieldText? today) = fieldText? today tag)
    (tags : List Tag) : reachable today (tags.filterMap edit) = reachable today tags := by
  have haccounts : ∀ channel, accounts today (tags.filterMap edit) channel =
      accounts today tags channel := fun channel => several_filterMap hname (h channel) tags
  simp only [reachable, haccounts]

theorem lastTag?_eq_none {tags : List Tag} (hname : KeepsNames edit)
    (h : lastTag? tags name = none) : lastTag? (tags.filterMap edit) name = none := by
  rw [lastTag?, List.getLast?_eq_none_iff] at h ⊢
  rw [named_filterMap hname, h, List.filterMap_nil]

/-- The last tag of a name is still the last one if it is kept. -/
theorem lastTag?_eq_some {tags : List Tag} {tag tag' : Tag} (hname : KeepsNames edit)
    (h : lastTag? tags name = some tag) (hedit : edit tag = some tag') :
    lastTag? (tags.filterMap edit) name = some tag' := by
  rw [lastTag?, List.getLast?_eq_some_iff] at h ⊢
  obtain ⟨before, hbefore⟩ := h
  refine ⟨before.filterMap edit, ?_⟩
  rw [named_filterMap hname, hbefore, List.filterMap_append, List.filterMap_cons, hedit,
    List.filterMap_nil]

theorem name_of_lastTag? {tags : List Tag} {tag : Tag} (h : lastTag? tags name = some tag) :
    tag.name = name := by
  simpa using (List.mem_filter.mp (List.mem_of_getLast? h)).2

/-- Where one value is shown, no tag may be taken out, and the last one has to say the same. -/
theorem single?_filterMap (hname : KeepsNames edit)
    (h : ∀ tag, tag.name = name →
      ∃ tag', edit tag = some tag' ∧ fieldText? today tag' = fieldText? today tag)
    (tags : List Tag) : single? today (tags.filterMap edit) name = single? today tags name := by
  rw [single?, single?]
  cases hlast : lastTag? tags name with
  | none => rw [lastTag?_eq_none hname hlast]
  | some tag =>
    obtain ⟨tag', hedit, htext⟩ := h tag (name_of_lastTag? hlast)
    rw [lastTag?_eq_some hname hlast hedit]
    exact htext

end

/-! ## The last tag of a name -/

section

variable {today : Date} {tags : List Tag} {name : String}

/-- An expired tag takes the place of a valid one that says something. -/
def Hides (today : Date) (tags : List Tag) (name : String) : Prop :=
  (∃ expired, lastTag? tags name = some expired ∧ isValid expired.options today = false) ∧
    single? today (validTags today tags) name ≠ none

/-- An expired description is shown, or in its place nothing, though the last one that is valid is
another. -/
def HidesDescription (today : Date) (tags : List Tag) : Prop :=
  ∃ expired, lastTag? tags "beschreibung" = some expired ∧
    isValid expired.options today = false ∧
    (lastTag? (validTags today tags) "beschreibung").bind (·.child) ≠ expired.child

theorem keepsNames_ifValid (today : Date) : KeepsNames (ifValid today) := by
  intro tag tag' h
  unfold ifValid at h
  split at h
  · rw [← Option.some.inj h]
  · cases h

theorem ifValid_of_valid {tag : Tag} (h : isValid tag.options today = true) :
    ifValid today tag = some tag :=
  if_pos h

theorem bind_ifValid (today : Date) (tag : Tag) :
    (ifValid today tag).bind (fieldText? today) = fieldText? today tag := by
  unfold ifValid
  split
  · rfl
  · rename_i h
    simp [fieldText?, h]

theorem fieldText?_of_expired {tag : Tag} (h : isValid tag.options today = false) :
    fieldText? today tag = none := by
  simp [fieldText?, h]

theorem single?_validTags :
    single? today (validTags today tags) name = single? today tags name ↔
      ¬Hides today tags name := by
  have hname := keepsNames_ifValid today
  cases hlast : lastTag? tags name with
  | none =>
    have hvalid := lastTag?_eq_none hname hlast
    simp [Hides, single?, validTags, hlast, hvalid]
  | some tag =>
    rcases hv : isValid tag.options today with _ | _
    · simp [Hides, single?, hlast, hv, fieldText?_of_expired hv]
    · have hvalid := lastTag?_eq_some hname hlast (ifValid_of_valid hv)
      simp [Hides, single?, validTags, hlast, hvalid, hv]

theorem description_validTags :
    description? (validTags today tags) = description? tags ↔ ¬HidesDescription today tags := by
  unfold description?
  have hname := keepsNames_ifValid today
  cases hlast : lastTag? tags "beschreibung" with
  | none =>
    have hvalid := lastTag?_eq_none hname hlast
    simp [HidesDescription, validTags, hlast, hvalid]
  | some tag =>
    rcases hv : isValid tag.options today with _ | _
    · simp [HidesDescription, hlast, hv]
    · have hvalid := lastTag?_eq_some hname hlast (ifValid_of_valid hv)
      simp [HidesDescription, validTags, hlast, hvalid, hv]

end

/-! ## Addresses -/

/-- The fields of an address with one value. -/
def addressValues : List String :=
  ["name", "straße", "plz", "ort", "land", "bundesland", "bezirk"]

section

variable {today : Date}

theorem address?_of_valid {tag : Tag} (h : isValid tag.options today = true) :
    address? today tag = some (addressOf today (fields tag.child)) := by
  simp [address?, h]

theorem address?_of_expired {tag : Tag} (h : isValid tag.options today = false) :
    address? today tag = none := by
  simp [address?, h]

theorem address?_inAddress {tag : Tag} (inner : Tag → Option Tag) (hname : tag.name = "adresse")
    (h : isValid tag.options today = true) :
    address? today (inAddress inner tag) =
      some (addressOf today ((fields tag.child).filterMap inner)) := by
  have hvalid : isValid (inAddress inner tag).options today = true := by
    rwa [inAddress, if_pos hname]
  rw [address?_of_valid hvalid, inAddress, if_pos hname, fields_edited]

theorem addressOf_validTags {tags : List Tag} :
    addressOf today (validTags today tags) = addressOf today tags ↔
      (∀ name ∈ addressValues, ¬Hides today tags name) ∧ ¬HidesDescription today tags := by
  have hseveral : ∀ name, several today (validTags today tags) name = several today tags name :=
    fun name => several_filterMap (keepsNames_ifValid today) (fun tag _ => bind_ifValid today tag)
      tags
  have hreachable : reachable today (validTags today tags) = reachable today tags :=
    reachable_filterMap (keepsNames_ifValid today) (fun _ tag _ => bind_ifValid today tag) tags
  simp only [addressOf, addressWith, Address.mk.injEq, hseveral, hreachable, single?_validTags,
    description_validTags, addressValues, List.forall_mem_cons, true_and, and_true, and_assoc,
    List.not_mem_nil, false_imp_iff, implies_true]

end

/-! ## Contacts -/

/-- The fields of a contact with one value. -/
def personValues : List String :=
  ["name", "geburtsname", "titel", "geburtstag", "todestag"]

/-- The addresses of a contact whose tags are changed. -/
def addressesOf (today : Date) (edit inner : Tag → Option Tag) (tags : List Tag) :
    List (Address Document) :=
  (tags.filter (·.name == "adresse")).filterMap fun tag =>
    (edit tag).bind fun tag => address? today (inAddress inner tag)

section

variable {today : Date} {edit inner : Tag → Option Tag}

theorem person_eq (today : Date) (content : Option Document) :
    person today content = personOf today (fields content)
      (((fields content).filter (·.name == "adresse")).filterMap (address? today)) :=
  rfl

theorem inAddress_name (inner : Tag → Option Tag) (tag : Tag) :
    (inAddress inner tag).name = tag.name := by
  unfold inAddress
  split <;> rfl

/-- Apart from its addresses a contact is made of the other tags. -/
theorem personOf_congr {tags tags' : List Tag}
    (h : ∀ name, name ≠ "adresse" →
      tags.filter (·.name == name) = tags'.filter (·.name == name))
    (addresses : List (Address Document)) :
    personOf today tags addresses = personOf today tags' addresses := by
  have hsingle : ∀ name, name ≠ "adresse" → single? today tags name = single? today tags' name := by
    intro name hname
    rw [single?, single?, lastTag?, lastTag?, h name hname]
  have hseveral : ∀ name, name ≠ "adresse" →
      several today tags name = several today tags' name := by
    intro name hname
    rw [several, several, h name hname]
  have hreachable : reachable today tags = reachable today tags' := by
    have hchannel : ∀ channel : Channel, channel.tagName ≠ "adresse" := by
      intro channel
      cases channel <;> decide
    simp only [reachable, accounts, hseveral _ (hchannel _)]
  simp (disch := decide) only [personOf, hreachable, hsingle, hseveral]

theorem person_editedContact (hname : KeepsNames edit) (content : Option Document) :
    person today (editedContact edit inner content) =
      personOf today ((fields content).filterMap edit)
        (addressesOf today edit inner (fields content)) := by
  have hboth : KeepsNames fun tag => (edit tag).map (inAddress inner) := by
    intro tag tag' h
    obtain ⟨between, hedit, rfl⟩ := Option.map_eq_some_iff.mp h
    rw [inAddress_name, hname tag between hedit]
  have haddresses : (((fields content).filterMap fun tag => (edit tag).map (inAddress inner)).filter
      (·.name == "adresse")).filterMap (address? today) =
        addressesOf today edit inner (fields content) := by
    rw [named_filterMap hboth, List.filterMap_filterMap, addressesOf]
    refine List.filterMap_congr fun tag _ => ?_
    rw [Option.bind_map]
    rfl
  rw [person_eq, editedContact, fields_edited, haddresses]
  refine personOf_congr (fun name hother => named_congr hboth hname (fun tag htag => ?_) _) _
  cases hedit : edit tag with
  | none => rfl
  | some tag' =>
    have hkept : tag'.name ≠ "adresse" := by rwa [hname tag tag' hedit, htag]
    rw [Option.map_some, inAddress, if_neg hkept]

theorem personOf_validTags {tags : List Tag} {addresses addresses' : List (Address Document)} :
    personOf today (validTags today tags) addresses = personOf today tags addresses' ↔
      (∀ name ∈ personValues, ¬Hides today tags name) ∧ addresses = addresses' := by
  have hseveral : ∀ name, several today (validTags today tags) name = several today tags name :=
    fun name => several_filterMap (keepsNames_ifValid today) (fun tag _ => bind_ifValid today tag)
      tags
  have hreachable : reachable today (validTags today tags) = reachable today tags :=
    reachable_filterMap (keepsNames_ifValid today) (fun _ tag _ => bind_ifValid today tag) tags
  simp only [personOf, Person.mk.injEq, hseveral, hreachable, single?_validTags, personValues,
    List.forall_mem_cons, true_and, and_true, and_assoc, List.not_mem_nil, false_imp_iff,
    implies_true]

theorem filterMap_eq_iff {α β : Type} {f g : α → Option β} {l : List α}
    (h : ∀ x ∈ l, (f x).isSome = (g x).isSome) :
    l.filterMap f = l.filterMap g ↔ ∀ x ∈ l, f x = g x := by
  induction l with
  | nil => simp
  | cons x rest ih =>
    have hx := h x List.mem_cons_self
    have hrest := ih fun y hy => h y (List.mem_cons_of_mem x hy)
    rw [List.forall_mem_cons, ← hrest]
    cases hf : f x <;> cases hg : g x <;> simp_all

/-- Where expired addresses are taken out, the addresses are the same if each valid one is. -/
theorem addressesOf_eq_iff (inner : Tag → Option Tag) (tags : List Tag)
    (hvalid : ∀ tag, isValid tag.options today = true → edit tag = some tag)
    (hexpired : ∀ tag, tag.name = "adresse" → isValid tag.options today = false →
      edit tag = none) :
    addressesOf today edit inner tags =
        (tags.filter (·.name == "adresse")).filterMap (address? today) ↔
      ∀ tag ∈ tags, tag.name = "adresse" → isValid tag.options today = true →
        addressOf today ((fields tag.child).filterMap inner) =
          addressOf today (fields tag.child) := by
  have hread : ∀ tag : Tag, tag.name = "adresse" → isValid tag.options today = true →
      ((edit tag).bind fun tag => address? today (inAddress inner tag)) =
        some (addressOf today ((fields tag.child).filterMap inner)) := by
    intro tag hname hv
    rw [hvalid tag hv, Option.bind_some, address?_inAddress inner hname hv]
  have hnone : ∀ tag : Tag, tag.name = "adresse" → isValid tag.options today = false →
      ((edit tag).bind fun tag => address? today (inAddress inner tag)) = none := by
    intro tag hname hv
    rw [hexpired tag hname hv, Option.bind_none]
  rw [addressesOf, filterMap_eq_iff]
  · simp only [List.mem_filter, beq_iff_eq, and_imp]
    refine forall₃_congr fun tag _ hname => ?_
    cases hv : isValid tag.options today with
    | false => simp [hnone tag hname hv, address?_of_expired hv]
    | true => simp [hread tag hname hv, address?_of_valid hv]
  · intro tag htag
    have hname : tag.name = "adresse" := by simpa using (List.mem_filter.mp htag).2
    cases hv : isValid tag.options today with
    | false => rw [hnone tag hname hv, address?_of_expired hv]
    | true => simp [hread tag hname hv, address?_of_valid hv]

end

/-! ## Expired tags that say nothing -/

/-- A tag that says nothing if it has expired: it is emptied if there is one value of its name, left
if its name is in `kept`, and else taken out. -/
def mute (today : Date) (values kept : List String) (tag : Tag) : Option Tag :=
  if isValid tag.options today then some tag
  else if tag.name ∈ values then some { tag with child := none }
  else if tag.name ∈ kept then some tag
  else none

/-- The content of a contact where no tag that has expired says anything, but for descriptions. -/
def muted (today : Date) (content : Option Document) : Option Document :=
  editedContact (mute today personValues []) (mute today addressValues ["beschreibung"]) content

section

variable {today : Date} {values kept : List String} {name : String}

theorem mute_of_valid {tag : Tag} (h : isValid tag.options today = true) :
    mute today values kept tag = some tag :=
  if_pos h

theorem keepsNames_mute : KeepsNames (mute today values kept) := by
  intro tag tag' h
  unfold mute at h
  repeat' split at h
  all_goals cases h
  all_goals rfl

theorem bind_mute (tag : Tag) :
    (mute today values kept tag).bind (fieldText? today) = fieldText? today tag := by
  unfold mute
  split
  · rfl
  · rename_i hv
    have hexpired : isValid tag.options today = false := by simpa using hv
    rw [fieldText?_of_expired hexpired]
    split
    · exact fieldText?_of_expired hexpired
    · split
      · exact fieldText?_of_expired hexpired
      · rfl

theorem several_mute (tags : List Tag) :
    several today (tags.filterMap (mute today values kept)) name = several today tags name :=
  several_filterMap keepsNames_mute (fun tag _ => bind_mute tag) tags

theorem reachable_mute (tags : List Tag) :
    reachable today (tags.filterMap (mute today values kept)) = reachable today tags :=
  reachable_filterMap keepsNames_mute (fun _ tag _ => bind_mute tag) tags

theorem single?_mute (h : name ∈ values) (tags : List Tag) :
    single? today (tags.filterMap (mute today values kept)) name = single? today tags name := by
  refine single?_filterMap keepsNames_mute (fun tag htag => ?_) tags
  have hsome : (mute today values kept tag).isSome = true := by
    unfold mute
    split
    · rfl
    · rw [if_pos (htag ▸ h)]
      rfl
  obtain ⟨tag', htag'⟩ := Option.isSome_iff_exists.mp hsome
  have htext : (mute today values kept tag).bind (fieldText? today) = fieldText? today tag :=
    bind_mute tag
  rw [htag', Option.bind_some] at htext
  exact ⟨tag', htag', htext⟩

theorem lastTag?_mute (h : name ∈ kept) (hother : name ∉ values) (tags : List Tag) :
    lastTag? (tags.filterMap (mute today values kept)) name = lastTag? tags name := by
  cases hlast : lastTag? tags name with
  | none => exact lastTag?_eq_none keepsNames_mute hlast
  | some tag =>
    refine lastTag?_eq_some keepsNames_mute hlast ?_
    have hname := name_of_lastTag? hlast
    subst hname
    simp [mute, h, hother]

theorem addressOf_mute (tags : List Tag) :
    addressOf today (tags.filterMap (mute today addressValues ["beschreibung"])) =
      addressOf today tags := by
  simp (disch := decide) only [addressOf, addressWith, description?, several_mute, reachable_mute,
    single?_mute, lastTag?_mute]

/-- What an expired tag says is not shown, unless it is a description. -/
theorem person_muted (today : Date) (content : Option Document) :
    person today (muted today content) = person today content := by
  have haddresses : addressesOf today (mute today personValues [])
      (mute today addressValues ["beschreibung"]) (fields content) =
        ((fields content).filter (·.name == "adresse")).filterMap (address? today) := by
    refine (addressesOf_eq_iff _ _ (fun tag => mute_of_valid) ?_).mpr fun tag _ _ _ =>
      addressOf_mute _
    intro tag hname hv
    simp [mute, hv, hname, personValues]
  rw [muted, person_editedContact keepsNames_mute, haddresses, person_eq]
  simp (disch := decide) only [personOf, several_mute, reachable_mute, single?_mute]

end

/-! ## Expired tags that are taken out -/

/-- What a tag that has expired says counts only if it is a description: the card is the same if
every other one is emptied, and if those are taken out of whose name there may be several. But the
place of an expired tag counts: a contact is the same without all of them exactly if, in it and in
each of its valid addresses, none takes the place of an earlier one that says something, and none is
shown as a description. -/
theorem expired_tags_count_as_the_last_of_their_name (today : Date) (content : Option Document) :
    card today (person today (muted today content)) = card today (person today content) ∧
    (person today (withoutExpired today content) = person today content ↔
      (∀ name ∈ personValues, ¬Hides today (fields content) name) ∧
      ∀ tag ∈ fields content, tag.name = "adresse" → isValid tag.options today = true →
        (∀ name ∈ addressValues, ¬Hides today (fields tag.child) name) ∧
          ¬HidesDescription today (fields tag.child)) := by
  refine ⟨by rw [person_muted], ?_⟩
  have hexpired : ∀ tag : Tag, tag.name = "adresse" → isValid tag.options today = false →
      ifValid today tag = none := by
    intro tag _ hv
    simp [ifValid, hv]
  rw [withoutExpired, person_editedContact (keepsNames_ifValid today), person_eq]
  refine personOf_validTags.trans (and_congr_right fun _ => ?_)
  rw [addressesOf_eq_iff _ _ (fun tag => ifValid_of_valid) hexpired]
  exact forall₄_congr fun tag _ _ _ => addressOf_validTags

/-- A day long after the one on which the tags below expire. -/
def someDay : Date := ⟨2024, 3, 15, Date.isDay_ides⟩

/-- A tag with a text, which is valid until a day. -/
def tagUntil (name said : String) (last : Option String) : Document :=
  wrapped (.xmlTag none name (last.toList.map fun day => (validUntil, day))) (text said)

/-- Two names, of which the second has expired. -/
def twoNames : Document :=
  group [tagUntil "name" "A" none, tagUntil "name" "B" (some "01.01.2000")]

/-- An address with a description that has expired. -/
def addressWithDescription : Document :=
  wrapped (.xmlTag none "adresse" []) (tagUntil "beschreibung" "C" (some "01.01.2000"))

/-- A name that has expired takes the place of one that is valid, and a description that has expired
is shown. -/
theorem expired_tags_hide_a_name_and_show_a_description :
    let shown (content : Option Document) := (card someDay (person someDay content)).textContent
    shown (some twoNames) = "" ∧ shown (withoutExpired someDay (some twoNames)) = "A" ∧
      shown (some addressWithDescription) = "C" ∧
      shown (withoutExpired someDay (some addressWithDescription)) = "" := by
  decide

end WikiHtml.Contact
