-- The card of a contact that is built is the one that is shown. What the tags say is read off the nodes
-- as it is read off the document, and the description of an address is a copy of what stands in its tag.
import Mathlib.Data.List.Induction
import WikiHtml.Building.Card
import WikiHtml.Proofs.Building.Contents

namespace WikiHtml.Building

open Calendar Contact Document

/-! ## Reading the tags of nodes -/

section

variable {t : Tree}

/-- A content and what stands there: the document of the node, if it has one. -/
abbrev Stands (t : Tree) : Option NodeId → Option Document → Prop :=
  Option.Rel fun id d => t.document? id = some d

theorem tag?_refill (e : Element NodeId) (ds : List Document) (_ : e.Takes ds.length) :
    (tag? (e.refill ds)).isSome = isTag e := by
  rcases e with members | ⟨w, _ | child⟩ | ⟨params, rows⟩ | l
  · rfl
  · cases w <;> rfl
  · cases w <;> rfl
  · rfl
  · rfl

/-- What the tags of nodes say is what the tags of the document say. -/
theorem tagsAt_eq (t : Tree) (content : Option NodeId) :
    tagsAt t content = fields (content.bind t.document?) := by
  cases content with
  | none => rfl
  | some id =>
    rw [Option.bind_some, tagsAt, tagNodes]
    cases hd : t.document? id with
    | none =>
      rw [Tree.outermost_eq_nil hd]
      rfl
    | some d =>
      rw [Tree.outermost_eq hd]
      exact (Tree.outermost_of_document tag?_refill hd).symm

/-- Each of the nodes is a tag with a document. -/
theorem tagAt?_of_mem {content : Option NodeId} {id : NodeId} (h : id ∈ tagNodes t content) :
    ∃ tag, tagAt? t id = some tag ∧ Stands t (t.child? id) tag.child := by
  unfold tagNodes at h
  split at h
  · rename_i top
    rcases htop : t.document? top with _ | d
    · rw [Tree.outermost_eq_nil htop] at h
      cases h
    · rw [Tree.outermost_eq htop] at h
      obtain ⟨htag, d, hd⟩ := Tree.exists_document_of_mem htop h
      obtain ⟨_, ds, hheld, rfl⟩ := Tree.document?_node hd
      have hat : tagAt? t id = tag? ((t.element id).refill ds) := by
        rw [tagAt?, hd]
        rfl
      unfold isTag at htag
      split at htag
      · rename_i space name options child he
        have hchild : t.child? id = child := by rw [Tree.child?, he]; rfl
        rw [he] at hheld hat
        rw [hchild]
        cases child with
        | none => exact ⟨⟨space, name, options, none⟩, hat, .none⟩
        | some c =>
          obtain ⟨content, _, hc, _, rfl⟩ := List.forall₂_cons_left_iff.mp hheld
          exact ⟨⟨space, name, options, some content⟩, hat, .some hc⟩
      · cases htag
  · cases h

theorem bind_of_stands {content : Option NodeId} {d : Option Document} (h : Stands t content d) :
    content.bind t.document? = d := by
  cases h with
  | none => rfl
  | some hd => exact hd

/-- The last of some tags is that of the last node. -/
theorem getLast?_tags {ids : List NodeId} {name : String}
    (h : ∀ id ∈ ids, ∃ tag, tagAt? t id = some tag ∧ Stands t (t.child? id) tag.child) :
    Stands t ((ids.filter (isNamed t name)).getLast?.bind t.child?)
      ((lastTag? (ids.filterMap (tagAt? t)) name).bind (·.child)) := by
  unfold lastTag?
  induction ids using List.reverseRecOn with
  | nil => exact .none
  | append_singleton ids id ih =>
    obtain ⟨tag, htag, hchild⟩ := h id (by simp)
    have hnamed : isNamed t name id = (tag.name == name) := by
      rw [isNamed, htag]
      rfl
    have hbefore := ih fun x hx => h x (by simp [hx])
    rw [List.filterMap_append, List.filter_append, List.filter_append, List.filterMap_cons,
      htag, List.filterMap_nil, List.filter_singleton, List.filter_singleton, hnamed]
    cases tag.name == name with
    | false => simpa using hbefore
    | true => simpa using hchild

end

/-! ## Addresses that are alike -/

/-- An address that was read off nodes, and the same with the document of its description. -/
inductive AddressAlike (t : Tree) : Address NodeId → Address Document → Prop
  | intro (today : Date) (tags : List Tag) {id : Option NodeId} {d : Option Document}
      (h : Stands t id d) : AddressAlike t (addressWith today tags id) (addressWith today tags d)

section

variable {t : Tree} {today : Date}

theorem alike_address {id : NodeId} {tag : Tag} (htag : tagAt? t id = some tag)
    (hchild : Stands t (t.child? id) tag.child) :
    Option.Rel (AddressAlike t) (addressAt? t today id) (address? today tag) := by
  unfold addressAt? address?
  rw [htag, Option.bind_eq_bind, Option.bind_some]
  dsimp only
  split
  · exact .none
  · have htags : tagsAt t (t.child? id) = fields tag.child := by
      rw [tagsAt_eq, bind_of_stands hchild]
    have hdescription : Stands t (descriptionAt? t (t.child? id))
        (description? (tagsAt t (t.child? id))) := getLast?_tags fun _ h => tagAt?_of_mem h
    refine .some ?_
    rw [addressOf]
    rw [htags] at hdescription ⊢
    exact .intro today _ hdescription

theorem alike_addresses {ids : List NodeId}
    (h : ∀ id ∈ ids, ∃ tag, tagAt? t id = some tag ∧ Stands t (t.child? id) tag.child) :
    List.Forall₂ (AddressAlike t)
      ((ids.filter (isNamed t "adresse")).filterMap (addressAt? t today))
      (((ids.filterMap (tagAt? t)).filter (·.name == "adresse")).filterMap (address? today)) := by
  induction ids with
  | nil => exact .nil
  | cons id rest ih =>
    obtain ⟨tag, htag, hchild⟩ := h id List.mem_cons_self
    have hrest := ih fun x hx => h x (List.mem_cons_of_mem id hx)
    have hnamed : isNamed t "adresse" id = (tag.name == "adresse") := by
      rw [isNamed, htag]
      rfl
    rw [List.filterMap_cons, htag, List.filter_cons, List.filter_cons, hnamed]
    cases tag.name == "adresse" with
    | false => exact hrest
    | true =>
      have hread : Option.Rel (AddressAlike t) (addressAt? t today id) (address? today tag) :=
        alike_address htag hchild
      rw [if_pos rfl, if_pos rfl, List.filterMap_cons, List.filterMap_cons]
      cases haddress : addressAt? t today id <;> cases haddress' : address? today tag <;>
        rw [haddress, haddress'] at hread <;> cases hread
      · exact hrest
      · rename_i halike
        exact .cons halike hrest

end

/-! ## Parts -/

section

variable {t : Tree}

theorem makes_labelled (label : String) (values : List String) (url? : String → Option String) :
    Makes t (labelled label values url?) (Contact.labelled label values url?) := by
  refine makes_paragraph (.cons (makes_wrapped _ (makes_text _))
    (makes_intersperse (makes_map fun value => ?_) (makes_text ", ")))
  cases url? value with
  | none => exact makes_text value
  | some url => exact makes_wrapped _ (makes_text value)

theorem makes_unlinked (label : String) (values : List String) :
    List.Forall₂ (Makes t) (unlinked label values) (Contact.unlinked label values) :=
  makes_unless _ (.cons (makes_labelled label values _) .nil)

theorem makes_channelParagraphs (channels : List (Channel × List String)) :
    List.Forall₂ (Makes t) (channelParagraphs channels) (Contact.channelParagraphs channels) :=
  makes_map fun (channel, accounts) => makes_labelled channel.label accounts channel.url?

theorem makes_gap : Makes t gap Contact.gap :=
  makes_ofLeaf _

theorem makes_pictures (photos : List String) :
    List.Forall₂ (Makes t) (pictures photos) (Contact.pictures photos) :=
  makes_unless _ (.cons (makes_wrapped _ (makes_group (makes_map fun _ => makes_ofLeaf _))) .nil)

/-! ## Addresses -/

variable {a : Address NodeId} {a' : Address Document}

theorem makes_location (h : AddressAlike t a a') :
    List.Forall₂ (Makes t) (location a) (Contact.location a') := by
  obtain ⟨today, tags, hdescription⟩ := h
  refine List.rel_append (List.rel_append (List.rel_append (makes_map makes_textParagraph) ?_) ?_) ?_
  · exact makes_unless _ (.cons (makes_textParagraph _) .nil)
  · exact makes_unless _ (.cons (makes_textParagraph _) .nil)
  · cases hdescription with
    | none => exact .nil
    | some hd => exact .cons (makes_paragraph (.cons (makes_wrapped _ (makes_copy hd)) .nil)) .nil

theorem makes_reach (h : AddressAlike t a a') :
    List.Forall₂ (Makes t) (reach a) (Contact.reach a') := by
  obtain ⟨today, tags, _⟩ := h
  exact List.rel_append (List.rel_append (List.rel_append (makes_unlinked _ _) (makes_unlinked _ _))
    (makes_channelParagraphs _)) (makes_unlinked _ _)

theorem isEmpty_tops {u : Tree} {os : List Outline} {ds : List Document} (h : t.Added u os ds) :
    (os.map Outline.id).isEmpty = ds.isEmpty := by
  rw [List.isEmpty_map, Bool.eq_iff_iff, List.isEmpty_iff_length_eq_zero,
    List.isEmpty_iff_length_eq_zero, h.length_eq]

/-- What was built may come into two columns. -/
theorem columns_added {u : Tree} {os os' : List Outline} {ds ds' : List Document}
    (h : t.Added u (os ++ os') (ds ++ ds')) (hl : os.length = ds.length) :
    ∃ o : Outline, o.id = ((columns (os.map Outline.id) (os'.map Outline.id)).run u).run.1 ∧
      t.Added ((columns (os.map Outline.id) (os'.map Outline.id)).run u).run.2 [o]
        [.node (.table (some "kontaktseite-adresse")
          [⟨none, [⟨false, none, some (.group ds)⟩, ⟨false, none, some (.group ds')⟩]⟩]) none] := by
  have hfirst := Tree.Added.add (e := .list ds) none h hl
  have hl' : os'.length = ds'.length := by
    have := h.length_eq
    rw [List.length_append, List.length_append] at this
    omega
  have hsecond := Tree.Added.add (e := .list ds') none hfirst.rotate hl'
  have hboth : t.Added _ ([_, _] ++ [])
      ((Element.table (some "kontaktseite-adresse") [⟨none, [⟨false, none, some (.group ds)⟩,
        ⟨false, none, some (.group ds')⟩]⟩]).children ++ []) := hsecond.rotate
  exact ⟨_, rfl, hboth.add none rfl⟩

/-- The table of an address is built if there is one to show. -/
theorem builds_addressTable (h : AddressAlike t a a') :
    Builds t Option.toList (addressTable a) (Contact.addressTable? a').toList := by
  intro u hu
  obtain ⟨os, hos, hadded⟩ := builds_all (makes_location h) u hu
  obtain ⟨os', hos', hadded'⟩ := builds_all (makes_reach h) _ (hu.trans hadded.changes (by simp))
  have hall := hadded.append hadded'
  dsimp only at hos hos'
  rw [addressTable, run_bind, run_bind, ← hos, ← hos', isEmpty_tops hadded, isEmpty_tops hadded']
  unfold Contact.addressTable?
  simp only [List.all_cons, List.all_nil, Bool.and_true]
  cases hshown : (Contact.location a').isEmpty && (Contact.reach a').isEmpty with
  | true =>
    rw [Bool.and_eq_true, List.isEmpty_iff, List.isEmpty_iff] at hshown
    rw [hshown.1, hshown.2] at hall
    refine ⟨os ++ os', ?_, hall⟩
    rw [List.eq_nil_of_length_eq_zero hall.length_eq]
    rfl
  | false =>
    obtain ⟨o, ho, htable⟩ := columns_added hall hadded.length_eq
    exact ⟨[o], congrArg (fun id => [id]) ho, htable⟩

/-- A table is built before the gap in front of it. -/
theorem builds_addressTables {as : List (Address NodeId)} {as' : List (Address Document)}
    (h : List.Forall₂ (AddressAlike t) as as') :
    Builds t (fun ids => ids) (addressTables as)
      ((as'.filterMap Contact.addressTable?).flatMap fun table => [Contact.gap, table]) := by
  induction h with
  | nil => exact builds_nothing rfl
  | @cons a a' as as' halike _ ih =>
    intro u hu
    obtain ⟨os, hos, hadded⟩ := builds_addressTable halike u hu
    rw [addressTables, run_bind, List.filterMap_cons]
    generalize ((addressTable a).run u).run = built at hos hadded ⊢
    obtain ⟨found, v⟩ := built
    cases hshown : Contact.addressTable? a' with
    | none =>
      rw [hshown] at hadded
      obtain rfl := List.eq_nil_of_length_eq_zero hadded.length_eq
      obtain rfl : found = none := by
        cases found with
        | none => rfl
        | some table => cases hos
      obtain ⟨os', hos', hothers⟩ := ih v (hu.trans hadded.changes (by simp))
      exact ⟨os', hos', hadded.append hothers⟩
    | some d =>
      rw [hshown] at hadded
      obtain ⟨o, rfl⟩ := List.length_eq_one_iff.mp hadded.length_eq
      obtain rfl : found = some o.id := by
        cases found with
        | none => cases hos
        | some table => cases hos; rfl
      have hv := hu.trans hadded.changes (by simp)
      obtain ⟨gaps, hgap, hspace⟩ := makes_gap v hv
      obtain ⟨os, hos', hothers⟩ := ih _ (hv.trans hspace.changes (by simp))
      have hpair := (hadded.append hspace).rotate
      refine ⟨gaps ++ [o] ++ os, ?_, hpair.append hothers⟩
      rw [List.map_append, List.map_append, hgap, hos']
      rfl

/-! ## The card -/

theorem makes_lifetime (today : Date) (p : Person NodeId) (p' : Person Document)
    (hbirth : p.birthday = p'.birthday) (hdeath : p.deathDay = p'.deathDay) :
    List.Forall₂ (Makes t) (lifetime today p) (Contact.lifetime today p') := by
  unfold lifetime Contact.lifetime
  rw [hbirth, hdeath]
  refine makes_unless _ (.cons (makes_paragraph (List.rel_append (List.rel_append (List.rel_append
    (makes_map fun _ => makes_text _) ?_) ?_) (makes_map fun _ => makes_text _))) .nil)
  · split
    · exact .cons (makes_ofLeaf _) .nil
    · exact .nil
  · cases p'.deathDay with
    | none => exact .nil
    | some day => exact .cons (makes_ofLeaf _) (.cons (makes_text day) .nil)

theorem makes_cardOf {day today : Date} {tags : List Tag} {as : List (Address NodeId)}
    {as' : List (Address Document)} (h : List.Forall₂ (AddressAlike t) as as') :
    Makes t (card today (personOf day tags as)) (Contact.card today (personOf day tags as')) := by
  have hfront : List.Forall₂ (Makes t) (pictures (personOf day tags as).photos
        ++ (personOf day tags as).title.toList.map textParagraph
        ++ [paragraph [wrapped .bold (text (fullName (personOf day tags as)))]]
        ++ lifetime today (personOf day tags as)
        ++ (if (personOf day tags as).channels = [] then []
          else gap :: channelParagraphs (personOf day tags as).channels))
      _ :=
    List.rel_append (List.rel_append (List.rel_append (List.rel_append
      (makes_pictures _) (makes_map makes_textParagraph))
      (.cons (makes_paragraph (.cons (makes_wrapped _ (makes_text _)) .nil)) .nil))
      (makes_lifetime today _ (personOf day tags as') rfl rfl))
      (makes_unless _ (.cons makes_gap (makes_channelParagraphs _)))
  have hcategories := makes_unless ((personOf day tags as).categories = [])
    (.cons makes_gap (makes_unlinked (t := t) "Kontakt-Kategorien" (personOf day tags as).categories))
  have htables : Builds t (fun ids => ids) (do
      let x ← all _
      let y ← addressTables (personOf day tags as).addresses
      return x ++ y) _ :=
    (builds_all hfront).both (builds_addressTables h) fun _ _ => rfl
  have hbuilt : Builds t (fun ids => ids) (do
      let x ← _
      let y ← all _
      return x ++ y) _ :=
    htables.both (builds_all hcategories) fun _ _ => rfl
  have hall := hbuilt.gather
  simp only [bind_assoc, pure_bind] at hall
  exact hall

/-- The card of a contact in a node is built: the one of the person in the document of the node. -/
theorem makes_card (today : Date) (content : Option NodeId) :
    Makes t (card today (personAt t today content))
      (Contact.card today (person today (content.bind t.document?))) := by
  have hread : List.Forall₂ (AddressAlike t)
      (((tagNodes t content).filter (isNamed t "adresse")).filterMap (addressAt? t today))
      (((tagsAt t content).filter (·.name == "adresse")).filterMap (address? today)) :=
    alike_addresses fun _ h => tagAt?_of_mem h
  rw [person, ← tagsAt_eq]
  exact makes_cardOf hread

end

end WikiHtml.Building
