-- The passes do not see which numbers the nodes have: in trees that differ in the numbers only, they
-- say the same of nodes that correspond.
import WikiHtml.Proofs.Tree.Renumbering
import WikiHtml.Substitution.Rewriting

namespace WikiHtml.Substitution

open WikiHtml.Tree

section

variable {f : Equiv.Perm NodeId} {t u : Tree} {id : NodeId} (h : Renumbered f t u)

include h

theorem isInsideWithin_renumbered (path : String) (pages : Nat) (x : NodeId) :
    isInsideWithin u path pages (f x) = isInsideWithin t path pages x := by
  induction pages generalizing x with
  | zero => rfl
  | succ pages ih =>
    rw [isInsideWithin, isInsideWithin, h.contextPage_eq]
    cases t.contextPage x false with
    | none => rfl
    | some page =>
      dsimp only [Option.map_some]
      rw [h.pagePath_eq, h.parent_eq]
      cases t.parent page with
      | none => rfl
      | some above =>
        dsimp only [Option.map_some]
        rw [ih]

theorem isInside_renumbered (path : String) : isInside u path (f id) = isInside t path id := by
  rw [isInside, h.size_eq, isInsideWithin_renumbered h, isInside]

theorem bind_document?_renumbered (x : Option NodeId) :
    (x.map f).bind u.document? = x.bind t.document? := by
  cases x with
  | none => rfl
  | some id => exact h.document?_eq id

theorem inclusion_renumbered (r : Repository) : inclusion r u (f id) = inclusion r t id := by
  unfold inclusion
  rw [h.element_eq]
  rcases t.element id with members | ⟨w, child⟩ | ⟨params, rows⟩ | l
  · rfl
  · rfl
  · rfl
  · cases l with
    | includePage path =>
      dsimp only [Element.map]
      rw [h.contextPage_eq, h.absolutePath_eq]
      cases t.absolutePath (some path) (t.contextPage id false) with
      | none => rfl
      | some absolute =>
        dsimp only
        rw [isInside_renumbered h]
    | _ => rfl

theorem contacts_renumbered (today : Calendar.Date) :
    contacts today u (f id) = contacts today t id := by
  unfold contacts
  rw [h.element_eq]
  rcases t.element id with members | ⟨w, child⟩ | ⟨params, rows⟩ | l
  · rfl
  · cases w with
    | xmlTag space name options =>
      cases space with
      | some space => rfl
      | none =>
        dsimp only [Element.map]
        rw [bind_document?_renumbered h]
    | _ => rfl
  · rfl
  · rfl

theorem events_renumbered (r : Repository) (settings : Settings) (today : Calendar.Date) :
    events r settings today u (f id) = events r settings today t id := by
  unfold events
  rw [h.element_eq]
  rcases t.element id with members | ⟨w, child⟩ | ⟨params, rows⟩ | l
  · rfl
  · cases w with
    | xmlTag space name options => cases space <;> rfl
    | _ => rfl
  · rfl
  · rfl

theorem contentsOf_renumbered : contentsOf u (f id) = contentsOf t id := by
  unfold contentsOf
  rw [h.contextPage_eq, bind_document?_renumbered h]

theorem nameOf?_renumbered (format : NameFormat) (linked isGlobal : Bool) :
    nameOf? u (f id) format linked isGlobal = nameOf? t id format linked isGlobal := by
  unfold nameOf?
  rw [h.contextPage_eq]
  cases t.contextPage id isGlobal with
  | none => rfl
  | some page =>
    dsimp only [Option.map_some, Option.bind_eq_bind, Option.bind_some]
    rw [h.pagePath_eq]

theorem folderPaths?_renumbered (r : Repository) (folder : Option String) (listing : Listing) :
    folderPaths? r u (f id) folder listing = folderPaths? r t id folder listing := by
  unfold folderPaths?
  rw [h.contextPage_eq]
  cases t.contextPage id listing.global with
  | none => rfl
  | some page =>
    dsimp only [Option.map_some, Option.bind_eq_bind, Option.bind_some]
    rw [h.pagePath_eq, show some (f page) = (some page).map f from rfl, h.absolutePath_eq]

theorem relativePaths?_renumbered (r : Repository) (path : Option String) (listing : Listing)
    (relatives : String → List String) :
    relativePaths? r u (f id) path listing relatives =
      relativePaths? r t id path listing relatives := by
  unfold relativePaths?
  rw [h.contextPage_eq, h.absolutePath_eq]

theorem placeholders_renumbered (r : Repository) (settings : Settings) (now : Calendar.Moment) :
    placeholders r settings now u (f id) = placeholders r settings now t id := by
  unfold placeholders
  rw [h.element_eq]
  rcases t.element id with members | ⟨w, child⟩ | ⟨params, rows⟩ | l
  · rfl
  · rfl
  · rfl
  · cases l with
    | tableOfContents =>
      dsimp only [Element.map]
      rw [contentsOf_renumbered h]
    | pageName format linked isGlobal =>
      dsimp only [Element.map]
      rw [nameOf?_renumbered h]
    | listPages folder listing =>
      dsimp only [Element.map]
      rw [folderPages?, folderPaths?_renumbered h, folderPages?]
    | listParents path listing =>
      dsimp only [Element.map]
      rw [relatives?, relativePaths?_renumbered h, relatives?]
    | listChildren path listing =>
      dsimp only [Element.map]
      rw [relatives?, relativePaths?_renumbered h, relatives?]
    | _ => rfl

end

/-- What a pass says of a node does not depend on its number. -/
def Pass.IgnoresNumbers (pass : Pass) : Prop :=
  ∀ {f t u}, Renumbered f t u → ∀ id, pass u (f id) = pass t id

theorem PassName.ignoresNumbers (r : Repository) (settings : Settings) (now : Calendar.Moment)
    (name : PassName) : (name.pass r settings now).IgnoresNumbers := by
  intro f t u h id
  cases name with
  | inclusion => exact inclusion_renumbered h r
  | contacts => exact contacts_renumbered h now.date
  | events => exact events_renumbered h r settings now.date
  | placeholders => exact placeholders_renumbered h r settings now

end WikiHtml.Substitution
