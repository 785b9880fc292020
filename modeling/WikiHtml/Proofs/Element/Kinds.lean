-- What elements stand for: the tags and placeholders that passes give their meaning. It can be told
-- without what the elements hold, and a plain element stands for nothing.
import WikiHtml.Contact.Person
import WikiHtml.Proofs.Document.Parts
import WikiHtml.Proofs.Tree.Grading
import WikiHtml.Substitution.Pass

namespace WikiHtml

/-! ## Elements that may hold one -/

namespace Wrapper

/-- The tag around a contact. -/
def isContact : Wrapper → Bool
  | .xmlTag none name _ => name == Contact.tagName
  | _ => false

/-- A tag that stands for a list of events. -/
def isEvents : Wrapper → Bool
  | .xmlTag none name _ => Substitution.isEventTag name
  | _ => false

/-- A heading. -/
def isHeading : Wrapper → Bool
  | .heading _ => true
  | _ => false

end Wrapper

/-! ## Elements that hold none -/

namespace Leaf

/-- A place that a page is to be put into. -/
def isInclusion : Leaf → Bool
  | .includePage _ => true
  | _ => false

/-- A table of contents that is to be filled in. -/
def isContents : Leaf → Bool
  | .tableOfContents => true
  | _ => false

/-- A placeholder that is to be filled in. -/
def isPlaceholder : Leaf → Bool
  | .tableOfContents | .pageName _ _ _ | .wikiVersion | .parent _ | .listPages _ _ => true
  | .moment _ | .listParents _ _ | .listChildren _ _ => true
  | .listWantedPages _ | .listUnlinkedPages _ _ _ => true
  | _ => false

theorem isPlaceholder_of_isContents {l : Leaf} (h : l.isContents = true) :
    l.isPlaceholder = true := by
  cases l <;> first | rfl | cases h

end Leaf

/-! ## All elements -/

namespace Element

variable {α β : Type} {p : Wrapper → Bool} {q : Leaf → Bool}

/-- An element that may hold one, of a kind. -/
def isWrap (p : Wrapper → Bool) : Element α → Bool
  | .wrap w _ => p w
  | _ => false

/-- An element that holds none, of a kind. -/
def isLeaf (q : Leaf → Bool) : Element α → Bool
  | .leaf l => q l
  | _ => false

@[simp] theorem isWrap_refill (e : Element α) (values : List β) :
    (e.refill values).isWrap p = e.isWrap p := by
  rcases e with members | ⟨w, _ | child⟩ | ⟨params, rows⟩ | l <;> rfl

@[simp] theorem isLeaf_refill (e : Element α) (values : List β) :
    (e.refill values).isLeaf q = e.isLeaf q := by
  rcases e with members | ⟨w, _ | child⟩ | ⟨params, rows⟩ | l <;> rfl

@[simp] theorem isWrap_bare (e : Element α) : e.bare.isWrap p = e.isWrap p :=
  e.isWrap_refill []

@[simp] theorem isLeaf_bare (e : Element α) : e.bare.isLeaf q = e.isLeaf q :=
  e.isLeaf_refill []

theorem isLeaf_of_imp {q' : Leaf → Bool} (h : ∀ {l : Leaf}, q l = true → q' l = true)
    {e : Element α} (he : e.isLeaf q = true) : e.isLeaf q' = true := by
  cases e with
  | leaf l => exact h he
  | _ => cases he

theorem isWrap_of_imp {p' : Wrapper → Bool} (h : ∀ {w : Wrapper}, p w = true → p' w = true)
    {e : Element α} (he : e.isWrap p = true) : e.isWrap p' = true := by
  cases e with
  | wrap w child => exact h he
  | _ => cases he

theorem isPage_of_isLeaf {e : Element α} (h : e.isLeaf q = true) : e.isPage = false := by
  cases e with
  | leaf l => rfl
  | _ => cases h

/-- A plain element stands for nothing else. -/
structure StandsForNothing (e : Element α) : Prop where
  contact : e.isWrap Wrapper.isContact = false
  events : e.isWrap Wrapper.isEvents = false
  heading : e.isWrap Wrapper.isHeading = false
  inclusion : e.isLeaf Leaf.isInclusion = false
  placeholder : e.isLeaf Leaf.isPlaceholder = false

theorem standsForNothing {e : Element α} (h : e.isPlain = true) : e.StandsForNothing := by
  rcases e with members | ⟨w, child⟩ | ⟨params, rows⟩ | l
  · exact ⟨rfl, rfl, rfl, rfl, rfl⟩
  · cases w <;> first | exact ⟨rfl, rfl, rfl, rfl, rfl⟩ | cases h
  · exact ⟨rfl, rfl, rfl, rfl, rfl⟩
  · cases l <;> first | exact ⟨rfl, rfl, rfl, rfl, rfl⟩ | cases h

theorem StandsForNothing.contents {e : Element α} (h : e.StandsForNothing) :
    e.isLeaf Leaf.isContents = false := by
  rcases he : e.isLeaf Leaf.isContents with _ | _
  · rfl
  · rw [← isLeaf_of_imp Leaf.isPlaceholder_of_isContents he]
    exact h.placeholder

end Element

end WikiHtml
