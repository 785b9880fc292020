-- The card of a contact is put together of plain elements, around the descriptions of addresses;
-- and these are parts of the contact.
import WikiHtml.Contact.Card
import WikiHtml.Proofs.Document.Parts

namespace WikiHtml.Contact

open Calendar Document

variable {P : Document → Prop}

/-! ## The parts of a card -/

theorem made_labelled (label : String) (values : List String) (url? : String → Option String) :
    Made P (labelled label values url?) := by
  refine made_paragraph fun d hd => ?_
  rcases List.mem_cons.mp hd with rfl | hd
  · exact (made_wrapped rfl (made_text _).around).around
  · refine around_intersperse (fun c hc => ?_) (made_text _).around d hd
    obtain ⟨value, _, rfl⟩ := List.mem_map.mp hc
    split
    · exact (made_wrapped rfl (made_text _).around).around
    · exact (made_text _).around

theorem around_unlinked (label : String) (values : List String) :
    ∀ d ∈ unlinked label values, Around P d := by
  unfold unlinked
  split
  · simp
  · simpa using (made_labelled label values _).around

theorem around_channelParagraphs (channels : List (Channel × List String)) :
    ∀ d ∈ channelParagraphs channels, Around P d := by
  intro d hd
  obtain ⟨⟨channel, accounts⟩, _, rfl⟩ := List.mem_map.mp hd
  exact (made_labelled _ _ _).around

theorem around_texts (texts : List String) : ∀ d ∈ texts.map textParagraph, Around P d := by
  intro d hd
  obtain ⟨s, _, rfl⟩ := List.mem_map.mp hd
  exact (made_textParagraph s).around

theorem around_location {a : Address Document} (h : ∀ d, a.description = some d → P d) :
    ∀ d ∈ location a, Around P d := by
  simp only [location, List.forall_mem_append]
  refine ⟨⟨⟨around_texts _, ?_⟩, ?_⟩, ?_⟩
  · split
    · simp
    · simpa using (made_textParagraph _).around
  · split
    · simp
    · simpa using (made_textParagraph _).around
  · split
    · rename_i description hd
      have hgiven : Around P (wrapped .italic description) :=
        (made_wrapped rfl (.given (h description hd))).around
      simpa using (made_paragraph (by simpa using hgiven)).around
    · simp

theorem around_reach (a : Address Document) : ∀ d ∈ reach a, Around P d := by
  simp only [reach, List.forall_mem_append]
  exact ⟨⟨⟨around_unlinked _ _, around_unlinked _ _⟩, around_channelParagraphs _⟩,
    around_unlinked _ _⟩

theorem around_addressTable {a : Address Document} {table : Document}
    (h : ∀ d, a.description = some d → P d) (ht : addressTable? a = some table) :
    Around P table := by
  simp only [addressTable?] at ht
  split at ht
  · cases ht
  · cases ht
    have hcells : ∀ d ∈ Element.contents [(⟨none, [location a, reach a].map fun content =>
        ⟨false, none, some (group content)⟩⟩ : Row Document)], Made P d := by
      intro d hd
      simp only [Element.contents, List.map_cons, List.map_nil, List.flatMap_cons,
        List.flatMap_nil, List.filterMap_cons, List.filterMap_nil, List.append_nil, List.mem_cons,
        List.not_mem_nil, or_false] at hd
      rcases hd with rfl | rfl
      · exact made_group (around_location h)
      · exact made_group (around_reach a)
    exact .fill ⟨rfl, rfl⟩ (fun d hd => (hcells d hd).around) fun _ d hd => (hcells d hd).toIsFill

theorem around_pictures (photos : List String) : ∀ d ∈ pictures photos, Around P d := by
  unfold pictures
  split
  · simp
  · have himages : ∀ d ∈ photos.map fun url =>
        ofLeaf (.image url [("class", "kontaktseite-bild")]), Around P d := by
      intro d hd
      obtain ⟨url, _, rfl⟩ := List.mem_map.mp hd
      exact (made_ofLeaf rfl).around
    simpa using (made_wrapped rfl (made_group himages).around).around

theorem around_lifetime (today : Date) (p : Person Document) : ∀ d ∈ lifetime today p, Around P d := by
  have hhtml : ∀ s, Around P (ofLeaf (.html s)) := fun s => (made_ofLeaf rfl).around
  unfold lifetime
  split
  · simp
  · refine List.forall_mem_singleton.mpr (made_paragraph ?_).around
    simp only [List.forall_mem_append]
    refine ⟨⟨⟨?_, ?_⟩, ?_⟩, ?_⟩
    · simpa using fun _ _ => (made_text _).around
    · split
      · simpa using hhtml _
      · simp
    · intro d hd
      obtain ⟨day, _, hd⟩ := List.mem_flatMap.mp hd
      simp only [List.mem_cons, List.not_mem_nil, or_false] at hd
      rcases hd with rfl | rfl
      · exact hhtml _
      · exact (made_text _).around
    · simpa using fun _ _ => (made_text _).around

/-- A card is put together around the descriptions of the addresses. -/
theorem made_card (today : Date) {p : Person Document}
    (h : ∀ a ∈ p.addresses, ∀ d, a.description = some d → P d) : Made P (card today p) := by
  have hgap : Around P gap := (made_ofLeaf rfl).around
  refine made_group ?_
  simp only [List.forall_mem_append]
  refine ⟨⟨⟨⟨⟨⟨around_pictures _, around_texts _⟩, ?_⟩, around_lifetime today p⟩, ?_⟩, ?_⟩, ?_⟩
  · have hname : Around P (wrapped .bold (text (fullName p))) :=
      (made_wrapped rfl (made_text _).around).around
    simpa using (made_paragraph (by simpa using hname)).around
  · split
    · simp
    · exact List.forall_mem_cons.mpr ⟨hgap, around_channelParagraphs _⟩
  · intro d hd
    obtain ⟨table, ht, hd⟩ := List.mem_flatMap.mp hd
    obtain ⟨a, ha, ht⟩ := List.mem_filterMap.mp ht
    simp only [List.mem_cons, List.not_mem_nil, or_false] at hd
    rcases hd with rfl | rfl
    · exact hgap
    · exact around_addressTable (h a ha) ht
  · split
    · simp
    · exact List.forall_mem_cons.mpr ⟨hgap, around_unlinked _ _⟩

/-! ## Descriptions -/

theorem part_of_field {content : Option Document} {tag : Tag} (h : tag ∈ fields content) :
    ∃ d, content = some d ∧ ∀ c, tag.child = some c → d.Part c := by
  rcases content with _ | d
  · simp [fields] at h
  · obtain ⟨e, he, htag⟩ := mem_outermost h
    refine ⟨d, rfl, fun c hc => he.tail ?_⟩
    unfold tag? at htag
    split at htag
    · rename_i space name options child heq
      cases htag
      obtain rfl : child = some c := hc
      rw [heq]
      simp [Element.children]
    · cases htag

theorem lastTag_mem {tags : List Tag} {name : String} {tag : Tag}
    (h : lastTag? tags name = some tag) : tag ∈ tags :=
  (List.mem_filter.mp (List.mem_of_getLast? h)).1

/-- The description of an address of a contact is a part of the contact. -/
theorem description_part {today : Date} {content : Option Document} {a : Address Document} {c : Document}
    (ha : a ∈ (person today content).addresses) (hc : a.description = some c) :
    ∃ d, content = some d ∧ d.Part c := by
  obtain ⟨tag, htag, haddress⟩ := List.mem_filterMap.mp ha
  obtain ⟨d, rfl, hpart⟩ := part_of_field (List.mem_filter.mp htag).1
  refine ⟨d, rfl, ?_⟩
  unfold address? at haddress
  split at haddress
  · cases haddress
  · cases haddress
    obtain ⟨inner, hinner, hchild⟩ := Option.bind_eq_some_iff.mp hc
    obtain ⟨b, hb, hpart'⟩ := part_of_field (lastTag_mem hinner)
    exact (hpart b hb).trans (hpart' c hchild)

end WikiHtml.Contact
