-- Where the ranges of a document come from. An element belongs to the page around it, and its range
-- to the tree that this page was read from. That is told by grading documents: the class of an element
-- says which page it belongs to, and whether it may get into another page without being included there.
import WikiHtml.Placeholder.Contents
import WikiHtml.Proofs.Document.Standing
import WikiHtml.Proofs.Html.EditRanges

namespace WikiHtml

open Document

/-! ## Kinds -/

/-- A heading that has a line in a table of contents. -/
def Wrapper.isListed : Wrapper → Bool
  | .heading level => Placeholder.Heading.isListed ⟨level, none⟩
  | _ => false

/-- A code block. -/
def Leaf.isCode : Leaf → Bool
  | .code _ _ => true
  | _ => false

namespace Element

variable {α : Type}

/-- An element that there may be a link to the editor for. -/
def isEditable (e : Element α) : Bool :=
  e.isWrap Wrapper.isHeading || e.isTable || e.isLeaf Leaf.isCode

theorem isTable_bare (e : Element α) : e.bare.isTable = e.isTable :=
  e.isTable_refill []

theorem isEditable_bare (e : Element α) : e.bare.isEditable = e.isEditable := by
  unfold isEditable
  rw [isWrap_bare, isTable_bare, isLeaf_bare]

theorem pagePath?_eq_some {e : Element α} {path : Option String} :
    pagePath? e = some path ↔ ∃ child, e = .wrap (.page path) child := by
  constructor
  · intro h
    rcases e with members | ⟨w, child⟩ | ⟨params, rows⟩ | l
    · cases h
    · cases w <;> cases h
      exact ⟨child, rfl⟩
    · cases h
    · cases h
  · rintro ⟨child, rfl⟩
    rfl

theorem isPage_iff {e : Element α} : e.isPage = true ↔ ∃ path, pagePath? e = some path := by
  rcases e with members | ⟨w, child⟩ | ⟨params, rows⟩ | l
  · simp [isPage, pagePath?]
  · cases w <;> simp [isPage, pagePath?]
  · simp [isPage, pagePath?]
  · simp [isPage, pagePath?]

theorem pagePath?_eq_none {e : Element α} : pagePath? e = none ↔ e.isPage = false := by
  rw [Option.eq_none_iff_forall_ne_some, ← Bool.not_eq_true, isPage_iff, not_exists]

theorem isPage_of_isPlain {e : Element α} (h : e.isPlain = true) : e.isPage = false := by
  rcases e with members | ⟨w, child⟩ | ⟨params, rows⟩ | l
  · rfl
  · cases w <;> first | rfl | cases h
  · rfl
  · rfl

theorem isPage_of_isContact {e : Element α} (h : e.isWrap Wrapper.isContact = true) :
    e.isPage = false := by
  rcases e with members | ⟨w, child⟩ | ⟨params, rows⟩ | l
  · rfl
  · cases w <;> first | rfl | cases h
  · rfl
  · rfl

theorem isHeading_of_isListed {e : Element α} (h : e.isWrap Wrapper.isListed = true) :
    e.isWrap Wrapper.isHeading = true := by
  refine isWrap_of_imp (fun {w} hw => ?_) h
  cases w <;> first | rfl | cases hw

end Element

/-! ## Trees that pages are read from -/

namespace Document

theorem mem_spans_of_part {d c : Document} {a : Span} (hc : d.Part c) (ha : a ∈ c.span) :
    a ∈ d.spans :=
  List.mem_filterMap.mpr ⟨c, mem_parts.mpr hc, ha⟩

/-- There is no page but at the top. -/
def PageAtTop (d : Document) : Prop :=
  ∀ x ∈ d.element.children, ∀ c, x.Part c → c.element.isPage = false

/-- No cell of a table asks for a page itself. -/
def NoPageAsCell (d : Document) : Prop :=
  ∀ c, d.Part c → c.element.isTable = true →
    ∀ x ∈ c.element.children, x.element.isLeaf Leaf.isInclusion = false

/-- No page is asked for in a contact. -/
def NoPageInContact (d : Document) : Prop :=
  ∀ c, d.Part c → c.element.isWrap Wrapper.isContact = true →
    ∀ x, c.Part x → x.element.isLeaf Leaf.isInclusion = false

/-- What has a line in a table of contents holds nothing that there may be a link to the editor for,
and no table of contents. -/
def NothingToEditInHeadings (d : Document) : Prop :=
  ∀ c, d.Part c → c.element.isWrap Wrapper.isListed = true →
    ∀ x ∈ c.element.children, ∀ y, x.Part y →
      y.element.isEditable = false ∧ y.element.isLeaf Leaf.isContents = false

instance (d : Document) : Decidable d.PageAtTop :=
  decidable_of_iff (∀ x ∈ d.element.children, ∀ c ∈ x.parts, c.element.isPage = false)
    (by simp only [PageAtTop, mem_parts])

instance (d : Document) : Decidable d.NoPageAsCell :=
  decidable_of_iff (∀ c ∈ d.parts, c.element.isTable = true →
      ∀ x ∈ c.element.children, x.element.isLeaf Leaf.isInclusion = false)
    (by simp only [NoPageAsCell, mem_parts])

instance (d : Document) : Decidable d.NoPageInContact :=
  decidable_of_iff (∀ c ∈ d.parts, c.element.isWrap Wrapper.isContact = true →
      ∀ x ∈ c.parts, x.element.isLeaf Leaf.isInclusion = false)
    (by simp only [NoPageInContact, mem_parts])

instance (d : Document) : Decidable d.NothingToEditInHeadings :=
  decidable_of_iff (∀ c ∈ d.parts, c.element.isWrap Wrapper.isListed = true →
      ∀ x ∈ c.element.children, ∀ y ∈ x.parts,
        y.element.isEditable = false ∧ y.element.isLeaf Leaf.isContents = false)
    (by simp only [NothingToEditInHeadings, mem_parts])

end Document

/-- The trees that pages are read from: that of the page that is shown, and those of the stored
pages. -/
structure Sources where
  main : Document
  stored : Repository

namespace Sources

/-- The path of the page that is shown. -/
def home (s : Sources) : Option String :=
  (pagePath? s.main.element).join

/-- The tree that the page of a path is read from. -/
def get? (s : Sources) (path : String) : Option Document :=
  if s.home = some path then some s.main else s.stored.get? path

/-- A range is that of an element in the tree of the page that it belongs to, if this has a path. -/
def Has (s : Sources) (context : Context) (span : Span) : Prop :=
  ∀ path, context.join = some path → ∃ d, s.get? path = some d ∧ span ∈ d.spans

/-- A link to the editor opens the tree of its page at the start of an element, and ends at the start
or the end of one. -/
def Opens (s : Sources) (range : Html.EditRange) : Prop :=
  ∃ d, s.get? range.path = some d ∧ (∃ a ∈ d.spans, range.span.first = a.first) ∧
    ∃ b ∈ d.spans, range.span.last = b.first ∨ range.span.last = b.last

end Sources

/-! ## Scopes -/

/-- What is known of an element from what is around it: the page that it belongs to, whether it is in
a heading from where it may be repeated in another page, whether it is all that a cell of a table
holds, and whether it is in a contact. -/
structure Scope where
  context : Context
  quiet : Bool
  cell : Bool
  contact : Bool

namespace Scope

/-- The scope of what belongs to a page and is in no heading, cell or contact. -/
def clear (context : Context) : Scope := ⟨context, false, false, false⟩

/-- The scope of the top of a tree: that of what a page without a path holds, unless it is a page
itself. -/
def atTop {α : Type} (e : Element α) : Scope :=
  clear (if e.isPage then none else some none)

/-- An element with its range may stand in a scope. The page that is shown is in no other one. What
is in a heading from where it may be repeated elsewhere has no range to edit, and there is no table of
contents. With `contacts` there are contacts that are still to be shown. -/
structure Fits (s : Sources) (contacts : Bool) (e : Element Empty) (span : Option Span)
    (i : Scope) : Prop where
  page : ∀ path, pagePath? e = some path →
    (i.context ≠ none → path ≠ s.home) ∧ i.cell = false ∧ (contacts = true → i.contact = false)
  outermost : ∀ path, pagePath? e = some path → i.context = none → s.home = none ∨ path = s.home
  inclusion : e.isLeaf Leaf.isInclusion = true →
    i.context ≠ none ∧ i.cell = false ∧ i.contact = false
  contents : e.isLeaf Leaf.isContents = true → i.quiet = false
  own : pagePath? e = none → i.quiet = false → ∀ a ∈ span, s.Has i.context a
  quiet : i.quiet = true → e.isEditable = true ∨ i.cell = true → span = none

/-- The scope of what an element in a scope holds. -/
structure Holds (s : Sources) (contacts : Bool) (e : Element Empty) (i j : Scope) : Prop where
  context : j.context = (pagePath? e).or i.context
  quiet : pagePath? e = none → i.quiet = true → j.quiet = true
  heading : e.isWrap Wrapper.isListed = true → i.context ≠ some s.home → j.quiet = true
  cell : e.isTable = true → j.cell = true
  contact : contacts = true → e.isWrap Wrapper.isContact = true ∨ i.contact = true →
    j.contact = true

/-- A scope from which a document may get into another scope: it belongs to the same page. -/
structure Under (contacts : Bool) (i k : Scope) : Prop where
  context : k.context = i.context
  quiet : i.quiet = true → k.quiet = true
  contact : contacts = true → i.contact = true → k.contact = true

variable {s : Sources} {contacts : Bool} {e : Element Empty} {i j k : Scope}

theorem Under.refl (contacts : Bool) (i : Scope) : Under contacts i i :=
  ⟨rfl, id, fun _ => id⟩

theorem Under.trans (h : Under contacts i j) (h' : Under contacts j k) : Under contacts i k where
  context := h'.context.trans h.context
  quiet hquiet := h'.quiet (h.quiet hquiet)
  contact htrue hcontact := h'.contact htrue (h.contact htrue hcontact)

/-- What an element holds that is no page belongs to the page that the element belongs to. -/
theorem Holds.under (h : Holds s contacts e i j) (hpage : pagePath? e = none) :
    Under contacts i j where
  context := by
    rw [h.context, hpage]
    rfl
  quiet := h.quiet hpage
  contact htrue hcontact := h.contact htrue (Or.inr hcontact)

end Scope

/-- The scopes as classes. -/
def Sources.scopes (s : Sources) (contacts : Bool) : Grading Scope where
  fits := Scope.Fits s contacts
  holds := Scope.Holds s contacts
  level _ := 0
  level_le _ := le_rfl
  empty _ := ⟨nofun, nofun, nofun, nofun, nofun, fun _ _ => rfl⟩

namespace Sources

variable {s : Sources} {contacts : Bool} {i j : Scope} {d : Document}

/-- A document of a scope, and all of it further in. -/
abbrev Of (s : Sources) (contacts : Bool) : Scope → Document → Prop :=
  (s.scopes contacts).Of

/-! ## Links to the editor -/

theorem Has.opens {context : Context} {path : String} {a b : Span} {range : Html.EditRange}
    (ha : s.Has context a) (hb : s.Has context b) (hpath : context.join = some path)
    (hrange : range.path = path) (hfirst : range.span.first = a.first)
    (hlast : range.span.last = b.first ∨ range.span.last = b.last) : s.Opens range := by
  obtain ⟨d, hd, hma⟩ := ha path hpath
  obtain ⟨d', hd', hmb⟩ := hb path hpath
  obtain rfl : d = d' := Option.some.inj (hd.symm.trans hd')
  exact ⟨d, hrange ▸ hd, ⟨a, hma, hfirst⟩, b, hmb, hlast⟩

/-- The range of an element that may be edited is in the tree of the page that it belongs to. -/
theorem has_of_fits {e : Element Empty} {a : Span} (h : Scope.Fits s contacts e (some a) i)
    (hedit : e.isEditable = true ∨ i.cell = true) : s.Has i.context a := by
  have hpage : pagePath? e = none := by
    rw [Option.eq_none_iff_forall_ne_some]
    intro path hpath
    obtain ⟨child, rfl⟩ := Element.pagePath?_eq_some.mp hpath
    rcases hedit with hedit | hcell
    · cases hedit
    · rw [(h.page path hpath).2.1] at hcell
      cases hcell
  rcases hquiet : i.quiet with _ | _
  · exact h.own hpage hquiet a rfl
  · have := h.quiet hquiet hedit
    cases this

theorem opens_whole {e : Element Empty} {span : Option Span} (h : Scope.Fits s contacts e span i)
    (hedit : e.isEditable = true ∨ i.cell = true) :
    ∀ range ∈ Html.editRange? i.context span, s.Opens range := by
  intro range hrange
  obtain ⟨path, hpath, hrange⟩ := Option.bind_eq_some_iff.mp hrange
  obtain ⟨a, rfl, hrange⟩ := Option.bind_eq_some_iff.mp hrange
  cases hrange
  have ha := has_of_fits h hedit
  exact ha.opens ha hpath rfl rfl (Or.inr rfl)

/-- The range of a heading is in the tree of the page, unless headings may get elsewhere from there;
then it has none. -/
theorem has_of_heading {a : Span} (h : s.Of contacts j d) (hunder : Scope.Under contacts i j)
    (hheading : (Html.headingLevel? d.element).isSome = true) (ha : a ∈ d.span) :
    s.Has i.context a ∧ i.quiet = false := by
  have hedit : d.element.bare.isEditable = true := by
    rw [Element.isEditable_bare]
    generalize d.element = e at hheading
    rcases e with members | ⟨w, child⟩ | ⟨params, rows⟩ | l
    · cases hheading
    · cases w <;> first | rfl | cases hheading
    · cases hheading
    · cases hheading
  have hfits := h.fits
  rw [show d.span = some a from ha] at hfits
  refine ⟨hunder.context ▸ has_of_fits hfits (Or.inl hedit), Bool.eq_false_iff.mpr fun hquiet => ?_⟩
  have hnone := hfits.quiet (hunder.quiet hquiet) (Or.inl hedit)
  cases hnone

/-- The section of a heading opens from the start of the heading to the start of another one, or to
the end of the list. -/
theorem opens_section {following : List Document} {span : Option Span} (hj : s.Of contacts j d)
    (hunder : Scope.Under contacts i j)
    (hspan : i.quiet = false → ∀ b ∈ span, s.Has i.context b)
    (hfollowing : ∀ c ∈ following, ∃ k, Scope.Under contacts i k ∧ s.Of contacts k c) :
    ∀ range ∈ Html.headingRange? ⟨i.context, none, some ⟨following, span⟩⟩ d, s.Opens range := by
  intro range hrange
  obtain ⟨level, hlevel, hrange⟩ := Option.bind_eq_some_iff.mp hrange
  obtain ⟨path, hpath, hrange⟩ := Option.bind_eq_some_iff.mp hrange
  obtain ⟨part, hpart, hrange⟩ := Option.bind_eq_some_iff.mp hrange
  cases hrange
  obtain ⟨a, inList, stop, ha, hinList, hstop, rfl⟩ := Html.section?_eq_some hpart
  obtain rfl := Option.some.inj hinList
  obtain ⟨hhas, hloud⟩ := has_of_heading hj hunder (by rw [hlevel]; rfl) ha
  rcases Html.sectionEnd?_eq_some hstop with ⟨next, hnext, hheading, b, hb, rfl⟩ | ⟨b, hb, rfl⟩
  · obtain ⟨k, hk, hof⟩ := hfollowing next hnext
    exact hhas.opens (has_of_heading hof hk hheading hb).1 hpath rfl rfl (Or.inl rfl)
  · exact hhas.opens (hspan hloud b hb) hpath rfl rfl (Or.inr rfl)

theorem opens_sections {members : List Document} {span : Option Span}
    (hspan : i.quiet = false → ∀ b ∈ span, s.Has i.context b)
    (h : ∀ c ∈ members, ∃ k, Scope.Under contacts i k ∧ s.Of contacts k c) :
    ∀ range ∈ Html.sectionRanges i.context span members, s.Opens range := by
  induction members with
  | nil => exact nofun
  | cons d rest ih =>
    obtain ⟨⟨j, hunder, hof⟩, hrest⟩ := List.forall_mem_cons.mp h
    rw [Html.sectionRanges, List.forall_mem_append]
    exact ⟨fun range hrange =>
      opens_section hof hunder hspan hrest range (Option.mem_toList.mp hrange), ih hrest⟩

/-- All links to the editor in a document that may stand in a scope open what they stand next to. -/
theorem opens_of (h : s.Of contacts i d) : ∀ range ∈ d.editRanges i.context, s.Opens range := by
  induction d using Document.induct generalizing i with
  | node e span ih =>
    have hfits := h.fits
    have hcontext : contextOf i.context e = (pagePath? e.bare).or i.context := by
      rw [contextOf_eq, pagePath?_bare]
    rw [editRanges_node, List.forall_mem_append, List.forall_mem_flatMap]
    constructor
    · rcases e with members | ⟨w, child⟩ | ⟨params, rows⟩ | l
      · have hmembers : ∀ c ∈ members, ∃ k, Scope.Under contacts i k ∧ s.Of contacts k c := by
          intro c hc
          obtain ⟨j, hj, hof⟩ := h.held hc
          exact ⟨j, Scope.Holds.under hj rfl, hof⟩
        exact opens_sections (hfits.own rfl) hmembers
      · exact nofun
      · refine List.forall_mem_append.mpr ⟨fun range hrange => ?_, fun range hrange => ?_⟩
        · exact opens_whole hfits (Or.inl rfl) range (Option.mem_toList.mp hrange)
        · obtain ⟨c, hc, hrange⟩ := List.mem_filterMap.mp hrange
          obtain ⟨j, hj, hof⟩ := h.held hc
          exact opens_whole hof.fits (Or.inr (hj.cell rfl)) range (hj.context ▸ hrange)
      · cases l with
        | code language text =>
          intro range hrange
          exact opens_whole hfits (Or.inl rfl) range (Option.mem_toList.mp hrange)
        | _ => exact fun range hrange => absurd hrange List.not_mem_nil
    · intro c hc
      obtain ⟨j, hj, hof⟩ := h.held hc
      change Scope.Holds s contacts e.bare i j at hj
      rw [hcontext, ← hj.context]
      exact ih c hc hof

end Sources

end WikiHtml
