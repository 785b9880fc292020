-- The keys of documents in JSON: which ones are known at a place, and that objects are read by these
-- alone. Two objects whose known fields are read alike are read alike.
import WikiHtml.Document.Decode
import WikiHtml.Proofs.Json.Members

namespace WikiHtml.Document

open Json

/-! ## Known keys -/

/-- The keys of a kind that may hold one element, but for the key of that element. -/
def wrapperKeys : String → List String
  | "page" => ["path"]
  | "heading" => ["level"]
  | "paragraph" => ["centered", "indention", "vertical_spacing"]
  | "list-item" => ["level", "ordered"]
  | "color" => ["name"]
  | "style" => ["classes"]
  | "html-tag" => ["name", "attributes"]
  | "xml-tag" => ["prefix", "name", "options"]
  | "link-page" => ["path", "anchor"]
  | "link-wiki" => ["command"]
  | "link-local-file" => ["path"]
  | "link-external" => ["url"]
  | _ => []

/-- The keys of a kind that holds no element. -/
def leafKeys : String → List String
  | "text" => ["text"]
  | "nowiki" => ["text"]
  | "html" => ["text"]
  | "anchor" => ["name"]
  | "image" => ["url", "options"]
  | "task" => ["state", "schedule", "description"]
  | "code" => ["language", "text"]
  | "include-page" => ["path"]
  | "page-name" => ["format", "linked", "global"]
  | "parent" => ["path"]
  | "list-pages" => ["folder", "listing"]
  | "date-time" => ["format"]
  | "list-parents" => ["path", "listing"]
  | "list-children" => ["path", "listing"]
  | "list-wanted-pages" => ["listing"]
  | "list-unlinked-pages" => ["hide_parents", "hide_children", "listing"]
  | _ => []

/-- The keys of a kind. -/
def kindKeys (kind : String) : List String :=
  if kind = "list" then ["items"]
  else if kind = "table" then ["params", "rows"]
  else if kind ∈ wrapperKinds then "child" :: wrapperKeys kind
  else leafKeys kind

section

variable {members members' : Members} {kind : String}

theorem wrapper?_congr (h : ∀ key ∈ wrapperKeys kind, field? members key = field? members' key) :
    wrapper? members kind = wrapper? members' kind := by
  unfold wrapper?
  split <;> simp_all [wrapperKeys, required?, optional?, defaulted?]

theorem leaf?_congr
    (h : ∀ key ∈ leafKeys kind, key ≠ "listing" → field? members key = field? members' key)
    (hlisting : "listing" ∈ leafKeys kind → listingOf? members = listingOf? members') :
    leaf? members kind = leaf? members' kind := by
  unfold leaf?
  split <;> simp_all [leafKeys, required?, optional?, defaulted?]

end

/-! ## Places of objects -/

/-- What is read at a place of a document; an array may hold many of it. -/
inductive Place where
  | node
  | row
  | cell
  | listing
  | all (each : Place)

namespace Place

/-- The keys of a record that may also be written as an array of its values, in the order of these. -/
def names : Place → List String
  | .row => ["params", "cells"]
  | .cell => ["header", "params", "content"]
  | .listing => ["format", "inline", "separator", "output_on_empty", "global"]
  | _ => []

/-- How many values such an array has to have. -/
def required : Place → Nat
  | .row => 1
  | .cell => 3
  | _ => 0

/-- The members of such a record, in either form. -/
def members? (p : Place) : Decoder Members :=
  record? p.names p.required

theorem members?_row (json : Json) :
    Place.row.members? json = record? ["params", "cells"] 1 json := rfl

theorem members?_cell (json : Json) :
    Place.cell.members? json = record? ["header", "params", "content"] 3 json := rfl

theorem members?_listing (json : Json) : Place.listing.members? json =
    record? ["format", "inline", "separator", "output_on_empty", "global"] 0 json := rfl

theorem members?_array (p : Place) (items : List Json) :
    p.members? (.array items) = positional? p.names p.required items := rfl

/-- The keys that are known at a place. Those of an element depend on the kind that it names. -/
def keys (members : Members) : Place → List String
  | .node => "type" :: "span" :: ((required? members "type" kind?).map kindKeys).getD []
  | p => p.names

/-- The place below a key, if there are more objects there whose keys are read. -/
def within : Place → String → Option Place
  | .node, "child" => some .node
  | .node, "items" => some (.all .node)
  | .node, "rows" => some (.all .row)
  | .node, "listing" => some .listing
  | .row, "cells" => some (.all .cell)
  | .cell, "content" => some .node
  | _, _ => none

/-- The values that are read at a place. -/
def Value : Place → Type
  | .node => Document
  | .row => Row Document
  | .cell => Cell Document
  | .listing => Listing
  | .all each => List each.Value

/-- Reads what is at a place, with documents nested less deep than the given bound. -/
def decode? (bound : Nat) : (p : Place) → Decoder p.Value
  | .node => node? bound
  | .row => row? (node? bound)
  | .cell => cell? (node? bound)
  | .listing => listing?
  | .all each => array? (each.decode? bound)

end Place

/-! ## Reading by known keys -/

/-- The known fields of two records are the same, or are read alike. -/
structure ReadAlike (bound : Nat) (p : Place) (known : List String) (members members' : Members) :
    Prop where
  same : ∀ key ∈ known, p.within key = none → field? members key = field? members' key
  alike : ∀ key ∈ known, ∀ q, p.within key = some q →
    Agree (q.decode? bound) (field? members key) (field? members' key)

theorem readAlike_of_same {bound : Nat} {p : Place} {known : List String}
    {members members' : Members} (h : ∀ key ∈ known, field? members key = field? members' key) :
    ReadAlike bound p known members members' :=
  ⟨fun key hkey _ => h key hkey, fun key hkey _ _ => Or.inl (h key hkey)⟩

/-- Two values are both no record, or are records whose known fields are read alike. -/
def RecordsAlike (bound : Nat) (p : Place) (json json' : Json) : Prop :=
  (p.members? json = none ∧ p.members? json' = none) ∨
    ∃ members members', p.members? json = some members ∧ p.members? json' = some members' ∧
      ReadAlike bound p p.names members members'

theorem within_of_mem_wrapperKeys {kind : String} :
    ∀ key ∈ wrapperKeys kind, Place.node.within key = none := by
  unfold wrapperKeys
  split <;> simp [Place.within]

theorem within_of_mem_leafKeys {kind : String} :
    ∀ key ∈ leafKeys kind, key ≠ "listing" → Place.node.within key = none := by
  unfold leafKeys
  split <;> simp [Place.within]

section

variable {bound : Nat} {members members' : Members} {kind : String} {json json' : Json}

theorem element?_congr (h : ReadAlike bound .node (kindKeys kind) members members') :
    element? (node? bound) members kind = element? (node? bound) members' kind := by
  unfold kindKeys at h
  unfold element?
  by_cases hlist : kind = "list"
  · rw [if_pos hlist] at h
    have hitems : defaulted? members "items" (array? (node? bound)) [] =
        defaulted? members' "items" (array? (node? bound)) [] :=
      defaulted?_agree (h.alike "items" (by simp) _ rfl) []
    rw [if_pos hlist, if_pos hlist, hitems]
  rw [if_neg hlist] at h
  rw [if_neg hlist, if_neg hlist]
  by_cases htable : kind = "table"
  · rw [if_pos htable] at h
    have hparams := h.same "params" (by simp) rfl
    have hrows : defaulted? members "rows" (array? (row? (node? bound))) [] =
        defaulted? members' "rows" (array? (row? (node? bound))) [] :=
      defaulted?_agree (h.alike "rows" (by simp) _ rfl) []
    rw [if_pos htable, if_pos htable, hrows, optional?, hparams, ← optional?]
  rw [if_neg htable] at h
  rw [if_neg htable, if_neg htable]
  by_cases hwrapper : kind ∈ wrapperKinds
  · rw [if_pos hwrapper] at h
    have hchild : optional? members "child" (node? bound) =
        optional? members' "child" (node? bound) :=
      optional?_agree (h.alike "child" (by simp) _ rfl)
    rw [if_pos hwrapper, if_pos hwrapper, hchild, wrapper?_congr fun key hkey =>
      h.same key (List.mem_cons_of_mem _ hkey) (within_of_mem_wrapperKeys key hkey)]
  · rw [if_neg hwrapper] at h
    have hlisting : "listing" ∈ leafKeys kind → listingOf? members = listingOf? members' :=
      fun hkey => defaulted?_agree (h.alike "listing" hkey _ rfl) _
    rw [if_neg hwrapper, if_neg hwrapper, leaf?_congr (fun key hkey hne =>
      h.same key hkey (within_of_mem_leafKeys key hkey hne)) hlisting]

/-- An array with nothing in it but null fits no key. -/
abbrev misfit : Json := .array [.null]

theorem wrapper?_misfit :
    ∀ key ∈ wrapperKeys kind, field? members key = some (some misfit) →
      wrapper? members kind = none := by
  unfold wrapper? wrapperKeys
  split <;> simp +contextual [required?, optional?, defaulted?, nullable?, text?, natBelow?, bool?,
    array?, texts?]

theorem listingOf?_misfit (h : field? members "listing" = some (some misfit)) :
    listingOf? members = none := by
  rw [listingOf?, defaulted?, h]
  rfl

theorem leaf?_misfit :
    ∀ key ∈ leafKeys kind, field? members key = some (some misfit) →
      leaf? members kind = none := by
  unfold leaf? leafKeys
  split <;> simp +contextual [required?, optional?, defaulted?, nullable?, text?, bool?, texts?,
    listingOf?_misfit, taskState?, choice?, nameFormat?, momentFormat?]

/-- No key is known in vain: each one is read, and may hold what does not fit it. -/
theorem known_keys_are_read {key : String} (hkey : key ∈ kindKeys kind)
    (h : field? members key = some (some misfit)) :
    element? (node? bound) members kind = none := by
  have hnode : node? bound misfit = none := by
    cases bound <;> rfl
  have hnull : node? bound .null = none := by
    cases bound <;> rfl
  unfold kindKeys at hkey
  unfold element?
  split_ifs at hkey ⊢
  · obtain rfl := List.mem_singleton.mp hkey
    simp [defaulted?, h, array?, hnull]
  · rcases List.mem_cons.mp hkey with rfl | hkey
    · simp [optional?, h, nullable?, text?]
    · obtain rfl := List.mem_singleton.mp hkey
      simp [defaulted?, h, array?, row?, record?]
  · rcases List.mem_cons.mp hkey with rfl | hkey
    · simp [optional?, h, nullable?, hnode]
    · rw [wrapper?_misfit key hkey h]
      rfl
  · rw [leaf?_misfit key hkey h]
    rfl

theorem row?_congr (h : RecordsAlike bound .row json json') :
    row? (node? bound) json = row? (node? bound) json' := by
  rcases h with ⟨hnone, hnone'⟩ | ⟨members, members', hsome, hsome', h⟩
  · rw [Place.members?_row] at hnone hnone'
    rw [row?, row?, hnone, hnone']
  · have hparams := h.same "params" (by simp [Place.names]) rfl
    have hcells : defaulted? members "cells" (array? (cell? (node? bound))) [] =
        defaulted? members' "cells" (array? (cell? (node? bound))) [] :=
      defaulted?_agree (h.alike "cells" (by simp [Place.names]) _ rfl) []
    rw [Place.members?_row] at hsome hsome'
    rw [row?, row?, hsome, hsome']
    simp only [Option.bind_eq_bind, Option.bind_some, hcells, optional?, hparams]

theorem cell?_congr (h : RecordsAlike bound .cell json json') :
    cell? (node? bound) json = cell? (node? bound) json' := by
  rcases h with ⟨hnone, hnone'⟩ | ⟨members, members', hsome, hsome', h⟩
  · rw [Place.members?_cell] at hnone hnone'
    rw [cell?, cell?, hnone, hnone']
  · have hheader := h.same "header" (by simp [Place.names]) rfl
    have hparams := h.same "params" (by simp [Place.names]) rfl
    have hcontent : optional? members "content" (node? bound) =
        optional? members' "content" (node? bound) :=
      optional?_agree (h.alike "content" (by simp [Place.names]) _ rfl)
    rw [Place.members?_cell] at hsome hsome'
    rw [cell?, cell?, hsome, hsome']
    simp only [Option.bind_eq_bind, Option.bind_some, hcontent]
    simp only [defaulted?, optional?, hheader, hparams]

theorem listing?_congr (h : RecordsAlike bound .listing json json') :
    listing? json = listing? json' := by
  rcases h with ⟨hnone, hnone'⟩ | ⟨members, members', hsome, hsome', h⟩
  · rw [Place.members?_listing] at hnone hnone'
    rw [listing?, listing?, hnone, hnone']
  · have hsame : ∀ key ∈ Place.listing.names, field? members key = field? members' key :=
      fun key hkey => h.same key hkey rfl
    simp only [Place.names, List.forall_mem_cons] at hsame
    rw [Place.members?_listing] at hsome hsome'
    rw [listing?, listing?, hsome, hsome']
    simp only [Option.bind_eq_bind, Option.bind_some, defaulted?, optional?, hsame]

theorem node?_congr (h : ∀ bound, ReadAlike bound .node (Place.node.keys members) members members')
    (bound : Nat) : node? bound (.object members) = node? bound (.object members') := by
  rcases bound with _ | bound
  · rfl
  have htype := (h bound).same "type" (by simp [Place.keys]) rfl
  have hspan := (h bound).same "span" (by simp [Place.keys]) rfl
  rw [node?, node?, required?_congr htype.symm kind?, optional?, optional?, hspan]
  rcases hkind : required? members "type" kind? with _ | kind
  · rfl
  have hknown : ∀ key ∈ kindKeys kind, key ∈ Place.node.keys members := fun key hkey => by
    simp [Place.keys, hkind, hkey]
  have helement : element? (node? bound) members kind = element? (node? bound) members' kind :=
    element?_congr ⟨fun key hkey => (h bound).same key (hknown key hkey),
      fun key hkey => (h bound).alike key (hknown key hkey)⟩
  simp only [Option.bind_eq_bind, Option.bind_some, helement]

/-- Where the known fields are read alike, objects are read alike. -/
theorem decode?_object {p : Place} (h : ∀ bound, ReadAlike bound p (p.keys members) members members')
    (bound : Nat) : p.decode? bound (.object members) = p.decode? bound (.object members') := by
  cases p with
  | node => exact node?_congr h bound
  | row => exact row?_congr (Or.inr ⟨_, _, rfl, rfl, h bound⟩)
  | cell => exact cell?_congr (Or.inr ⟨_, _, rfl, rfl, h bound⟩)
  | listing => exact listing?_congr (Or.inr ⟨_, _, rfl, rfl, h bound⟩)
  | all each => rfl

/-- Records that are written as arrays are read alike as well. -/
theorem decode?_array {p : Place} {items items' : List Json} (hp : p.names ≠ [])
    (hlength : items.length = items'.length)
    (h : ∀ bound, ReadAlike bound p p.names ((p.names.map some).zip items)
      ((p.names.map some).zip items'))
    (bound : Nat) : p.decode? bound (.array items) = p.decode? bound (.array items') := by
  have hrecords : RecordsAlike bound p (.array items) (.array items') := by
    rw [RecordsAlike, Place.members?_array, Place.members?_array, positional?, positional?, ← hlength]
    split
    · exact Or.inr ⟨_, _, rfl, rfl, h bound⟩
    · exact Or.inl ⟨rfl, rfl⟩
  cases p with
  | node => exact absurd rfl hp
  | row => exact row?_congr hrecords
  | cell => exact cell?_congr hrecords
  | listing => exact listing?_congr hrecords
  | all each => exact absurd rfl hp

/-- A member below which more is read changes, and is read alike. -/
theorem readAlike_of_member {p q : Place} {key : String} {value value' : Json}
    (there : p.within key = some q) (hvalue : value ≠ .null) (hvalue' : value' ≠ .null)
    (h : ∀ bound, q.decode? bound value = q.decode? bound value') (known : List String)
    (before after : Members) (bound : Nat) :
    ReadAlike bound p known (before ++ (some key, value) :: after)
      (before ++ (some key, value') :: after) where
  same name _ hnone := by
    have hne : name ≠ key := fun heq => by
      rw [heq, there] at hnone
      cases hnone
    rw [field?_insert hne, field?_insert hne]
  alike name _ r hname := by
    by_cases heq : name = key
    · subst heq
      obtain rfl : q = r := Option.some.inj (there.symm.trans hname)
      exact agree_of_member before after name hvalue hvalue' (h bound)
    · exact Or.inl (by rw [field?_insert heq, field?_insert heq])

end

end WikiHtml.Document
