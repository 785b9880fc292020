-- The passes as they work in the table of nodes do with each node what is said of it: a node stays or is
-- deleted, or new nodes are built for the document that is to be shown. This holds in every tree and
-- for every node.
import WikiHtml.Proofs.Building.Card
import WikiHtml.Proofs.Building.EventTable
import WikiHtml.Proofs.Building.PageLinks
import WikiHtml.Substitution.Rewriting

namespace WikiHtml.Substitution

open Building

/-! ## Doing what is said -/

/-- Two runs end alike: for the same cause, or with results that are related. -/
inductive Alike {ε α β : Type} (R : α → β → Prop) : Except ε α → Except ε β → Prop
  | error (cause : ε) : Alike R (.error cause) (.error cause)
  | ok {a : α} {b : β} (related : R a b) : Alike R (.ok a) (.ok b)

theorem Alike.bind {ε α β γ δ : Type} {R : α → β → Prop} {S : γ → δ → Prop} {a : Except ε α}
    {b : Except ε β} {k : α → Except ε γ} {l : β → Except ε δ} (h : Alike R a b)
    (hk : ∀ x y, R x y → Alike S (k x) (l y)) : Alike S (a.bind k) (b.bind l) := by
  cases h with
  | error cause => exact .error cause
  | ok hr => exact hk _ _ hr

theorem Alike.map {ε α β γ δ : Type} {R : α → β → Prop} {S : γ → δ → Prop} {a : Except ε α}
    {b : Except ε β} {k : α → γ} {l : β → δ} (h : Alike R a b)
    (hk : ∀ x y, R x y → S (k x) (l y)) : Alike S (a.map k) (b.map l) := by
  cases h with
  | error cause => exact .error cause
  | ok hr => exact .ok (hk _ _ hr)

theorem Alike.imp {ε α β : Type} {R S : α → β → Prop} {a : Except ε α} {b : Except ε β}
    (h : Alike R a b) (hk : ∀ x y, R x y → S x y) : Alike S a b := by
  cases h with
  | error cause => exact .error cause
  | ok hr => exact .ok (hk _ _ hr)

/-- What is done with a node is what is said of it. -/
inductive Edit.Does (t : Tree) : Edit → Verdict → Prop
  | keep : Does t .keep .keep
  | delete : Does t .delete .delete
  | build {b : Building NodeId} {d : Document} (made : Makes t b d) : Does t (.build b) (.put d)

/-- A rewriting does with each node of each tree what a pass says. -/
def Rewriting.Follows (rewriting : Rewriting) (pass : Pass) : Prop :=
  ∀ t id, Alike (Edit.Does t) (rewriting t id) (pass t id)

section

variable {t : Tree} {id : NodeId}

theorem does_ofOption {b : Option (Building NodeId)} {d : Option Document}
    (h : Option.Rel (Makes t) b d) : (Edit.ofOption b).Does t (.ofOption d) := by
  cases h with
  | none => exact .delete
  | some hmade => exact .build hmade

/-! ## Inclusion -/

/-- What is built for a stored page is a copy of it. -/
theorem makes_stored (r : Repository) (path : String) :
    Option.Rel (Makes t) (Rewriting.stored? r path) (r.get? path) := by
  unfold Rewriting.stored?
  cases r.get? path with
  | none => exact .none
  | some d =>
    obtain ⟨o, hroot, hs, _, hshown⟩ := Tree.ofDocument_stands d
    have hd := Tree.document?_eq_shown hs.spans hs.nodup
    rw [hshown] at hd
    dsimp only [Option.bind_eq_bind, Option.bind_some]
    rw [hroot]
    exact .some (makes_copyFrom hd)

theorem inclusion_follows (r : Repository) : (Rewriting.inclusion r).Follows (inclusion r) := by
  intro t id
  unfold Rewriting.inclusion inclusion
  rcases t.element id with members | ⟨w, child⟩ | ⟨params, rows⟩ | l
  · exact .ok .keep
  · exact .ok .keep
  · exact .ok .keep
  · cases l with
    | includePage path =>
      dsimp only
      cases t.absolutePath (some path) (t.contextPage id false) with
      | none => exact .ok .delete
      | some absolute =>
        by_cases hinside : isInside t absolute id = true
        · simp only [if_pos hinside]
          exact .ok .delete
        · simp only [if_neg hinside]
          exact .ok (does_ofOption (makes_stored r absolute))
    | _ => exact .ok .keep

/-! ## Contacts and events -/

theorem contacts_follows (today : Calendar.Date) :
    (Rewriting.contacts today).Follows (contacts today) := by
  intro t id
  unfold Rewriting.contacts contacts
  rcases t.element id with members | ⟨w, child⟩ | ⟨params, rows⟩ | l
  · exact .ok .keep
  · cases w with
    | xmlTag space name options =>
      cases space with
      | some space => exact .ok .keep
      | none =>
        by_cases hname : name = Contact.tagName
        · simp only [if_pos hname]
          exact .ok (.build (makes_card today child))
        · simp only [if_neg hname]
          exact .ok .keep
    | _ => exact .ok .keep
  · exact .ok .keep
  · exact .ok .keep

theorem events_follows (r : Repository) (settings : Settings) (today : Calendar.Date) :
    (Rewriting.events r settings today).Follows (events r settings today) := by
  intro t id
  unfold Rewriting.events events
  rcases t.element id with members | ⟨w, child⟩ | ⟨params, rows⟩ | l
  · exact .ok .keep
  · cases w with
    | xmlTag space name options =>
      cases space with
      | some space => exact .ok .keep
      | none =>
        by_cases hname : isEventTag name = true
        · simp only [if_pos hname]
          cases Event.Range.ofOptions? options with
          | none => exact .ok .keep
          | some range =>
            dsimp only
            rcases Event.entries today r range with cause | _ | entries
            · exact .error cause
            · exact .ok .keep
            · exact .ok (.build (makes_eventTable settings entries))
        · simp only [if_neg hname]
          exact .ok .keep
    | _ => exact .ok .keep
  · exact .ok .keep
  · exact .ok .keep

/-! ## Placeholders -/

theorem makes_contents : Makes t (Rewriting.contents t id) (contentsOf t id) := by
  unfold Rewriting.contents contentsOf
  cases t.contextPage id false with
  | none => exact makes_group .nil
  | some page =>
    rw [Option.bind_some]
    cases hd : t.document? page with
    | none => exact makes_no_tableOfContents hd
    | some d => exact makes_tableOfContents hd

theorem makes_name (format : NameFormat) (linked isGlobal : Bool) :
    Option.Rel (Makes t) (Rewriting.name? t id format linked isGlobal)
      (nameOf? t id format linked isGlobal) := by
  unfold Rewriting.name? nameOf?
  cases t.contextPage id isGlobal with
  | none => exact .none
  | some page =>
    dsimp only [Option.bind_eq_bind, Option.bind_some]
    cases t.pagePath page with
    | none => exact .none
    | some path => exact .some (makes_pageName path format linked)

theorem makes_list (paths : Option (List String)) (listing : Listing) :
    Option.Rel (Makes t) (Rewriting.list? paths listing)
      (paths.bind fun paths => Placeholder.pageList paths listing) := by
  cases paths with
  | none => exact .none
  | some paths => exact makes_pageList paths listing

theorem placeholders_follows (r : Repository) (settings : Settings) (now : Calendar.Moment) :
    (Rewriting.placeholders r settings now).Follows (placeholders r settings now) := by
  intro t id
  unfold Rewriting.placeholders placeholders
  rcases t.element id with members | ⟨w, child⟩ | ⟨params, rows⟩ | l
  · exact .ok .keep
  · exact .ok .keep
  · exact .ok .keep
  · cases l with
    | tableOfContents => exact .ok (.build makes_contents)
    | pageName format linked isGlobal => exact .ok (does_ofOption (makes_name format linked isGlobal))
    | wikiVersion => exact .ok (.build (makes_text _))
    | parent path => exact .ok .delete
    | listPages folder listing => exact .ok (does_ofOption (makes_list _ listing))
    | moment format => exact .ok (.build (makes_text _))
    | listParents path listing => exact .ok (does_ofOption (makes_list _ listing))
    | listChildren path listing => exact .ok (does_ofOption (makes_list _ listing))
    | listWantedPages listing => exact .ok (does_ofOption (makes_list (some _) listing))
    | listUnlinkedPages hideParents hideChildren listing =>
      exact .ok (does_ofOption (makes_list (some _) listing))
    | _ => exact .ok .keep

/-- The passes do what is said of them under their names. -/
theorem PassName.follows (r : Repository) (settings : Settings) (now : Calendar.Moment)
    (name : PassName) : (name.rewriting r settings now).Follows (name.pass r settings now) := by
  cases name with
  | inclusion => exact inclusion_follows r
  | contacts => exact contacts_follows now.date
  | events => exact events_follows r settings now.date
  | placeholders => exact placeholders_follows r settings now

end

end WikiHtml.Substitution
