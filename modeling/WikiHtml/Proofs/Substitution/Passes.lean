-- What each pass keeps, and what it puts in. A pass keeps a node for what its element is; only for
-- the lists of events it also matters whether there is a table to show.
import WikiHtml.Proofs.Contact.Card
import WikiHtml.Proofs.Element.Kinds
import WikiHtml.Proofs.Event.Table
import WikiHtml.Proofs.Placeholder.Lists
import WikiHtml.Proofs.Substitution.Inclusion

namespace WikiHtml.Substitution

open Element Calendar

variable {t : Tree} {id : NodeId} {d : Document}

theorem ofOption_ne_keep {found : Option Document} : Verdict.ofOption found ≠ .keep := by
  cases found <;> nofun

theorem ofOption_put {found : Option Document} (h : Verdict.ofOption found = .put d) :
    found = some d := by
  cases found <;> cases h
  rfl

/-! ## Pages -/

theorem inclusion_keeps {r : Repository} :
    inclusion r t id = .ok .keep ↔ (t.element id).isLeaf Leaf.isInclusion = false := by
  unfold inclusion
  rcases t.element id with members | ⟨w, child⟩ | ⟨params, rows⟩ | l
  · simp [isLeaf]
  · simp [isLeaf]
  · simp [isLeaf]
  · cases l with
    | includePage path =>
      simp only [isLeaf, Leaf.isInclusion, Bool.true_eq_false, iff_false]
      split
      · nofun
      · split
        · nofun
        · exact fun h => ofOption_ne_keep (Except.ok.inj h)
    | _ => simp [isLeaf, Leaf.isInclusion]

theorem inclusion_settles {r : Repository} (hr : r.Keyed) :
    (inclusion r).Settles fun e => e.isLeaf Leaf.isInclusion = false where
  keep_iff {_ _} := by
    rw [isLeaf_bare]
    exact inclusion_keeps
  put h := by
    obtain ⟨path, _, hget⟩ := inclusion_put h
    obtain ⟨child, span, rfl⟩ := (hr.get? hget).2
    rw [isLeaf_bare]
    rfl
  list := rfl
  page _ := rfl

/-! ## Contacts -/

theorem contacts_keeps {today : Date} :
    contacts today t id = .ok .keep ↔ (t.element id).isWrap Wrapper.isContact = false := by
  unfold contacts
  rcases t.element id with members | ⟨w, child⟩ | ⟨params, rows⟩ | l
  · simp [isWrap]
  · cases w with
    | xmlTag space name options =>
      cases space with
      | none => by_cases h : name = Contact.tagName <;> simp [isWrap, Wrapper.isContact, h]
      | some space => simp [isWrap, Wrapper.isContact]
    | _ => simp [isWrap, Wrapper.isContact]
  · simp [isWrap]
  · simp [isWrap]

theorem contacts_put {today : Date} (h : contacts today t id = .ok (.put d)) :
    (t.element id).isWrap Wrapper.isContact = true ∧
      d = Contact.card today (Contact.person today ((t.child? id).bind t.document?)) := by
  unfold contacts at h
  split at h
  · rename_i name options child he
    split at h
    · rename_i hname
      cases h
      rw [Tree.child?, he]
      exact ⟨by simp [isWrap, Wrapper.isContact, hname], rfl⟩
    · cases h
  · cases h

/-- What is put in for a contact is put together around parts of what the contact holds. -/
theorem contacts_made {today : Date} (h : contacts today t id = .ok (.put d)) :
    (t.element id).isWrap Wrapper.isContact = true ∧ d.Made fun c =>
      ∃ child ∈ (t.element id).children, ∃ content, t.document? child = some content ∧
        content.Part c := by
  obtain ⟨hcontact, rfl⟩ := contacts_put h
  refine ⟨hcontact, Contact.made_card today fun a ha c hc => ?_⟩
  obtain ⟨content, hcontent, hpart⟩ := Contact.description_part ha hc
  obtain ⟨child, hchild, hdoc⟩ := Option.bind_eq_some_iff.mp hcontent
  exact ⟨child, mem_children_of_child? hchild, content, hdoc, hpart⟩

theorem contacts_total (today : Date) (t : Tree) (id : NodeId) :
    ∃ v, contacts today t id = .ok v := by
  unfold contacts
  split
  · split <;> exact ⟨_, rfl⟩
  · exact ⟨_, rfl⟩

theorem contacts_settles (today : Date) :
    (contacts today).Settles fun e => e.isWrap Wrapper.isContact = false where
  keep_iff {_ _} := by
    rw [isWrap_bare]
    exact contacts_keeps
  put h := by
    obtain ⟨_, rfl⟩ := contacts_put h
    have hmade : ∀ p, Document.Made (fun _ => True) (Contact.card today p) :=
      fun p => Contact.made_card today fun _ _ _ _ => trivial
    rw [isWrap_bare]
    exact (standsForNothing (hmade _).plain).contact
  list := rfl
  page _ := rfl

/-! ## Events -/

/-- An element for which no table of events is shown: it is no tag for that, its options make no
sense, or the range leaves the calendar. -/
def ShowsNoEvents (r : Repository) (today : Date) : Element Empty → Prop
  | .wrap (.xmlTag none name options) _ => isEventTag name = true →
      ∀ range, Event.Range.ofOptions? options = some range →
        Event.entries today r range = .ok none
  | _ => True

theorem events_keeps {r : Repository} {settings : Settings} {today : Date} :
    events r settings today t id = .ok .keep ↔ ShowsNoEvents r today (t.element id).bare := by
  unfold events
  rcases t.element id with members | ⟨w, child⟩ | ⟨params, rows⟩ | l
  · simp [bare, refill, ShowsNoEvents]
  · have hbare : (Element.wrap w child).bare = .wrap w none := by cases child <;> rfl
    rw [hbare]
    cases w with
    | xmlTag space name options =>
      cases space with
      | none =>
        simp only [ShowsNoEvents]
        split
        · rename_i htag
          rcases hrange : Event.Range.ofOptions? options with _ | range
          · simp
          · rcases he : Event.entries today r range with cause | _ | entries <;>
              simp [htag, he, bind, Except.bind, pure, Except.pure]
        · rename_i htag
          simp [htag]
      | some space => simp [ShowsNoEvents]
    | _ => simp [ShowsNoEvents]
  · simp [bare, refill, ShowsNoEvents]
  · simp [bare, refill, ShowsNoEvents]

theorem events_put {r : Repository} {settings : Settings} {today : Date}
    (h : events r settings today t id = .ok (.put d)) :
    (t.element id).isWrap Wrapper.isEvents = true ∧ ∃ es, d = Event.table settings es := by
  unfold events at h
  split at h
  · rename_i name options child he
    split at h
    · rename_i hname
      rw [he]
      refine ⟨hname, ?_⟩
      split at h
      · cases h
      · rename_i range _
        rcases hes : Event.entries today r range with cause | _ | es <;> rw [hes] at h <;> cases h
        exact ⟨es, rfl⟩
    · cases h
  · cases h

theorem events_settles (r : Repository) (settings : Settings) (today : Date) :
    (events r settings today).Settles (ShowsNoEvents r today) where
  keep_iff := events_keeps
  put h := by
    obtain ⟨_, es, rfl⟩ := events_put h
    trivial
  list := trivial
  page _ := trivial

/-! ## Placeholders -/

variable {r : Repository} {settings : Settings} {now : Moment}

theorem placeholders_keeps :
    placeholders r settings now t id = .ok .keep ↔
      (t.element id).isLeaf Leaf.isPlaceholder = false := by
  unfold placeholders
  rcases t.element id with members | ⟨w, child⟩ | ⟨params, rows⟩ | l
  · simp [isLeaf]
  · simp [isLeaf]
  · simp [isLeaf]
  · cases l <;> simp [isLeaf, Leaf.isPlaceholder, ofOption_ne_keep]

theorem placeholders_total (t : Tree) (id : NodeId) :
    ∃ v, placeholders r settings now t id = .ok v := by
  unfold placeholders
  split <;> exact ⟨_, rfl⟩

theorem made_relatives {path : Option String} {listing : Listing} {relatives : String → List String}
    {P : Document → Prop} (h : relatives? r t id path listing relatives = some d) :
    Document.Made P d := by
  obtain ⟨paths, _, h⟩ := Option.bind_eq_some_iff.mp h
  exact Placeholder.made_pageList h

theorem contentsOf_plain (t : Tree) (id : NodeId) : (contentsOf t id).element.isPlain = true := by
  unfold contentsOf
  split
  · exact (Placeholder.made_tableOfContents _).plain
  · rfl

/-- What is put in is a table of contents, or it is put together of plain elements only. -/
theorem placeholders_put (h : placeholders r settings now t id = .ok (.put d)) :
    ((t.element id).isLeaf Leaf.isContents = true ∧ d = contentsOf t id) ∨
      ((t.element id).isLeaf Leaf.isPlaceholder = true ∧ Document.Made (fun _ => False) d) := by
  have hlist : ∀ {paths listing}, Placeholder.pageList paths listing = some d →
      Document.Made (fun _ => False) d := Placeholder.made_pageList
  unfold placeholders at h
  rcases he : t.element id with members | ⟨w, child⟩ | ⟨params, rows⟩ | l
  · rw [he] at h
    cases h
  · rw [he] at h
    cases h
  · rw [he] at h
    cases h
  · rw [he] at h
    have hgiven : ∀ {found : Option Document}, Except.ok (Verdict.ofOption found) =
        (Except.ok (.put d) : Except Event.Fault Verdict) → found = some d :=
      fun h => ofOption_put (Except.ok.inj h)
    cases l with
    | tableOfContents =>
      cases h
      exact Or.inl ⟨rfl, rfl⟩
    | pageName format linked isGlobal =>
      refine Or.inr ⟨rfl, ?_⟩
      obtain ⟨page, _, h⟩ := Option.bind_eq_some_iff.mp (hgiven h)
      obtain ⟨path, _, h⟩ := Option.bind_eq_some_iff.mp h
      cases h
      exact Placeholder.made_pageName _ _ _
    | wikiVersion =>
      cases h
      exact Or.inr ⟨rfl, Document.made_text _⟩
    | listPages folder listing =>
      refine Or.inr ⟨rfl, ?_⟩
      obtain ⟨paths, _, h⟩ := Option.bind_eq_some_iff.mp (hgiven h)
      exact hlist h
    | moment format =>
      cases h
      exact Or.inr ⟨rfl, Document.made_text _⟩
    | listParents path listing =>
      exact Or.inr ⟨rfl, made_relatives (hgiven h)⟩
    | listChildren path listing =>
      exact Or.inr ⟨rfl, made_relatives (hgiven h)⟩
    | listWantedPages listing => exact Or.inr ⟨rfl, hlist (hgiven h)⟩
    | listUnlinkedPages hideParents hideChildren listing => exact Or.inr ⟨rfl, hlist (hgiven h)⟩
    | _ => cases h

theorem placeholders_settles (r : Repository) (settings : Settings) (now : Moment) :
    (placeholders r settings now).Settles fun e => e.isLeaf Leaf.isPlaceholder = false where
  keep_iff {_ _} := by
    rw [isLeaf_bare]
    exact placeholders_keeps
  put {t id d} h := by
    rw [isLeaf_bare]
    rcases placeholders_put h with ⟨_, rfl⟩ | ⟨_, hmade⟩
    · exact (standsForNothing (contentsOf_plain t id)).placeholder
    · exact (standsForNothing hmade.plain).placeholder
  list := rfl
  page _ := rfl

end WikiHtml.Substitution
