-- Documents that may stand in a scope: trees as they are read, copies of what has no range to edit,
-- and what is put together around parts of them.
import WikiHtml.Proofs.Document.Origin
import WikiHtml.Proofs.Placeholder.Lists
import WikiHtml.Proofs.Repository

namespace WikiHtml

open Document

namespace Sources

variable {s : Sources} {contacts : Bool} {i j : Scope} {d : Document}

/-! ## Trees as they are read -/

/-- What holds of a part of a page as it was read. -/
structure Read (s : Sources) (i : Scope) (d : Document) : Prop where
  context : i.context ≠ none
  own : ∀ c, d.Part c → ∀ a ∈ c.span, s.Has i.context a
  noPage : ∀ c, d.Part c → c.element.isPage = false
  cells : d.NoPageAsCell
  contacts : d.NoPageInContact
  headings : i.context ≠ some s.home → d.NothingToEditInHeadings
  quiet : i.quiet = true → i.cell = false ∧ ∀ c, d.Part c →
    c.element.isEditable = false ∧ c.element.isLeaf Leaf.isContents = false
  cell : i.cell = true → d.element.isLeaf Leaf.isInclusion = false
  contact : i.contact = true → ∀ c, d.Part c → c.element.isLeaf Leaf.isInclusion = false

/-- The scope of what an element holds that is no page. -/
def scopeWithin (s : Sources) (i : Scope) (e : Element Document) : Scope where
  context := i.context
  quiet := i.quiet || (e.isWrap Wrapper.isListed && decide (i.context ≠ some s.home))
  cell := e.isTable
  contact := e.isWrap Wrapper.isContact || i.contact

theorem Read.held {e : Element Document} {span : Option Span} (h : s.Read i (.node e span))
    {c : Document} (hc : c ∈ e.children) : s.Read (s.scopeWithin i e) c := by
  have hpart : ∀ x, c.Part x → (Document.node e span).Part x := fun x hx => .head hc hx
  refine ⟨h.context, fun x hx => h.own x (hpart x hx), fun x hx => h.noPage x (hpart x hx),
    fun x hx => h.cells x (hpart x hx), fun x hx => h.contacts x (hpart x hx),
    fun hne x hx => h.headings hne x (hpart x hx), fun hquiet => ?_, fun hcell => ?_,
    fun hcontact x hx => ?_⟩
  · rcases Bool.or_eq_true _ _ ▸ hquiet with hquiet | hlisted
    · obtain ⟨_, hnothing⟩ := h.quiet hquiet
      have htable : e.isTable = false := by
        have hedit := (hnothing _ .refl).1
        simp only [Document.element, Element.isEditable, Bool.or_eq_false_iff] at hedit
        exact hedit.1.2
      exact ⟨htable, fun x hx => hnothing x (hpart x hx)⟩
    · rw [Bool.and_eq_true, decide_eq_true_eq] at hlisted
      obtain ⟨hlisted, hne⟩ := hlisted
      have htable : e.isTable = false := by
        cases e with
        | table params rows => cases hlisted
        | _ => rfl
      exact ⟨htable, h.headings hne _ .refl hlisted c hc⟩
  · exact h.cells _ .refl hcell c hc
  · rcases Bool.or_eq_true _ _ ▸ hcontact with hcontact | hcontact
    · exact h.contacts _ .refl hcontact x (hpart x hx)
    · exact h.contact hcontact x (hpart x hx)

theorem Read.of (h : s.Read i d) : s.Of contacts i d := by
  induction d using Document.induct generalizing i with
  | node e span ih =>
    have hpage : pagePath? e.bare = none := by
      rw [pagePath?_bare]
      exact Element.pagePath?_eq_none.mpr (h.noPage _ .refl)
    refine .intro ⟨fun path hpath => ?_, fun path hpath => ?_, fun hinclusion => ?_,
      fun hcontents => ?_, fun _ _ => h.own _ .refl, fun hquiet hedit => ?_⟩
      fun c hc => ⟨s.scopeWithin i e, ⟨?_, ?_, ?_, ?_, ?_⟩, ih c hc (h.held hc)⟩
    · rw [hpage] at hpath
      cases hpath
    · rw [hpage] at hpath
      cases hpath
    · rw [Element.isLeaf_bare] at hinclusion
      refine ⟨h.context, Bool.eq_false_iff.mpr fun hcell => ?_,
        Bool.eq_false_iff.mpr fun hcontact => ?_⟩
      · exact absurd hinclusion (Bool.eq_false_iff.mp (h.cell hcell))
      · exact absurd hinclusion (Bool.eq_false_iff.mp (h.contact hcontact _ .refl))
    · rw [Element.isLeaf_bare] at hcontents
      refine Bool.eq_false_iff.mpr fun hquiet => ?_
      exact absurd hcontents (Bool.eq_false_iff.mp ((h.quiet hquiet).2 _ .refl).2)
    · obtain ⟨hcell, hnothing⟩ := h.quiet hquiet
      rw [Element.isEditable_bare, hcell] at hedit
      exact absurd (hedit.resolve_right nofun) (Bool.eq_false_iff.mp (hnothing _ .refl).1)
    · rw [hpage]
      rfl
    · exact fun _ hquiet => by simp [scopeWithin, hquiet]
    · exact fun hlisted hne => by simpa [scopeWithin, hne] using Or.inr hlisted
    · exact fun htable => (Element.isTable_bare e).symm.trans htable
    · exact fun _ hcontact => by simpa [scopeWithin] using hcontact

/-- A page may stand in a scope if what it holds was read so. -/
theorem of_page {path : Option String} {child : Option Document} {span : Option Span}
    (hpath : i.context ≠ none → path ≠ s.home)
    (houtermost : i.context = none → s.home = none ∨ path = s.home) (hcell : i.cell = false)
    (hcontact : contacts = true → i.contact = false)
    (h : ∀ c ∈ child, s.Of contacts (.clear (some path)) c) :
    s.Of contacts i (.node (.wrap (.page path) child) span) := by
  have hpage : pagePath? (Element.wrap (.page path) child).bare = some path := pagePath?_bare _
  refine .intro ⟨fun path' h => ?_, fun path' h => ?_, fun h => ?_, fun h => ?_, fun h => ?_,
    fun _ h => ?_⟩
    fun c hc => ⟨.clear (some path), ⟨?_, fun h => ?_, fun h => ?_, fun h => ?_, fun htrue h => ?_⟩,
      h c (Option.mem_toList.mp hc)⟩
  · rw [hpage, Option.some.injEq] at h
    exact h ▸ ⟨hpath, hcell, hcontact⟩
  · rw [hpage, Option.some.injEq] at h
    exact h ▸ houtermost
  · rw [Element.isLeaf_bare] at h
    cases h
  · rw [Element.isLeaf_bare] at h
    cases h
  · rw [hpage] at h
    cases h
  · rw [Element.isEditable_bare, hcell] at h
    exact h.elim nofun nofun
  · rw [hpage]
    rfl
  · rw [hpage] at h
    cases h
  · rw [Element.isWrap_bare] at h
    cases h
  · rw [Element.isTable_bare] at h
    cases h
  · rw [Element.isWrap_bare, hcontact htrue] at h
    exact h.elim nofun nofun

/-- Pages are read from documents that put nothing from one page into another one, but by asking for
a page. -/
structure Apart (s : Sources) : Prop where
  main : s.main.PageAtTop ∧ s.main.NoPageAsCell ∧ s.main.NoPageInContact
  stored : ∀ {path d}, some path ≠ s.home → s.stored.get? path = some d →
    d.PageAtTop ∧ d.NoPageAsCell ∧ d.NoPageInContact ∧ d.NothingToEditInHeadings

/-- What a page holds was read as it says. -/
theorem read_page {path : Option String} {child : Option Document} {span : Option Span}
    (hpages : (Document.node (.wrap (.page path) child) span).PageAtTop)
    (hcells : (Document.node (.wrap (.page path) child) span).NoPageAsCell)
    (hcontacts : (Document.node (.wrap (.page path) child) span).NoPageInContact)
    (hheadings : path ≠ s.home →
      (Document.node (.wrap (.page path) child) span).NothingToEditInHeadings)
    (hget : ∀ known, path = some known →
      s.get? known = some (.node (.wrap (.page path) child) span)) :
    ∀ c ∈ child, s.Read (.clear (some path)) c := by
  intro c hc
  have hheld : c ∈ (Element.wrap (.page path) child).children := Option.mem_toList.mpr hc
  have hpart : ∀ x, c.Part x → (Document.node (.wrap (.page path) child) span).Part x :=
    fun x hx => .head hheld hx
  exact
    { context := nofun
      own := fun x hx a ha known hknown =>
        ⟨_, hget known hknown, mem_spans_of_part (hpart x hx) ha⟩
      noPage := hpages c hheld
      cells := fun x hx => hcells x (hpart x hx)
      contacts := fun x hx => hcontacts x (hpart x hx)
      headings := fun hne x hx => hheadings (fun he => hne (congrArg some he)) x (hpart x hx)
      quiet := nofun
      cell := nofun
      contact := nofun }

theorem Apart.of_main (h : s.Apart) : s.Of contacts (.atTop s.main.element) s.main := by
  obtain ⟨hpages, hcells, hcontacts⟩ := h.main
  rcases hpage : s.main.element.isPage with _ | _
  · have hhome : s.home = none := by
      unfold home
      rw [Element.pagePath?_eq_none.mpr hpage]
      rfl
    have htop : Scope.atTop s.main.element = .clear (some none) := by
      simp [Scope.atTop, hpage]
    rw [htop]
    exact Read.of
      { context := nofun
        own := nofun
        noPage := forall_part hpage hpages
        cells := hcells
        contacts := hcontacts
        headings := fun hne => absurd (congrArg some hhome.symm) hne
        quiet := nofun
        cell := nofun
        contact := nofun }
  · obtain ⟨path, hpath⟩ := Element.isPage_iff.mp hpage
    have hhome : s.home = path := by
      unfold home
      rw [hpath]
      rfl
    obtain ⟨child, hchild⟩ := Element.pagePath?_eq_some.mp hpath
    obtain ⟨span, hmain⟩ : ∃ span, s.main = .node (.wrap (.page path) child) span := by
      rw [← hchild]
      cases s.main
      exact ⟨_, rfl⟩
    rw [hmain] at hpages hcells hcontacts ⊢
    refine of_page (fun hne => absurd rfl hne) (fun _ => Or.inr hhome.symm) rfl (fun _ => rfl)
      fun c hc => Read.of ?_
    refine read_page hpages hcells hcontacts (fun hne => absurd hhome.symm hne) ?_ c hc
    rintro known rfl
    rw [get?, if_pos hhome, hmain]

theorem Apart.of_stored (h : s.Apart) {path : String} (hne : some path ≠ s.home)
    (hget : s.stored.get? path = some d) (hpage : Repository.IsPageOf path d)
    (hi : i.context ≠ none ∧ i.cell = false ∧ i.contact = false) : s.Of contacts i d := by
  obtain ⟨hcontext, hcell, hcontact⟩ := hi
  obtain ⟨hpages, hcells, hcontacts, hheadings⟩ := h.stored hne hget
  obtain ⟨child, span, rfl⟩ := hpage
  refine of_page (fun _ => hne) (fun h => absurd h hcontext) hcell (fun _ => hcontact)
    fun c hc => Read.of ?_
  refine read_page hpages hcells hcontacts (fun _ => hheadings) (fun known hknown => ?_) c hc
  rw [← Option.some.inj hknown, get?, if_neg hne.symm, hget]

/-! ## Copies -/

/-- What has no range to edit may stand in any page. -/
theorem Of.moved (h : s.Of contacts i d) (hquiet : i.quiet = true) (hi : i.context ≠ none)
    {context : Context} (hcontext : context ≠ none) :
    s.Of contacts { i with context := context } d := by
  induction d using Document.induct generalizing i with
  | node e span ih =>
    have hf := h.fits
    refine .intro ⟨fun path hpath => ?_, fun _ _ hnone => absurd hnone hcontext, fun he => ?_,
      hf.contents, fun _ hloud => ?_, hf.quiet⟩ fun c hc => ?_
    · obtain ⟨hne, hrest⟩ := hf.page path hpath
      exact ⟨fun _ => hne hi, hrest⟩
    · exact ⟨hcontext, (hf.inclusion he).2⟩
    · rw [hquiet] at hloud
      cases hloud
    · obtain ⟨j, hj, hof⟩ := h.held hc
      change Scope.Holds s contacts e.bare i j at hj
      rcases hpage : pagePath? e.bare with _ | path
      · have hquiet' := hj.quiet hpage hquiet
        refine ⟨{ j with context := context }, ⟨?_, fun _ _ => hquiet', fun _ _ => hquiet',
          hj.cell, hj.contact⟩, ih c hc hof hquiet' ((hj.under hpage).context ▸ hi)⟩
        rw [hpage]
        rfl
      · refine ⟨j, ⟨?_, fun hnone => ?_, fun hlisted => ?_, hj.cell, hj.contact⟩, hof⟩
        · rw [hj.context, hpage]
          rfl
        · rw [hpage] at hnone
          cases hnone
        · obtain ⟨child, he⟩ := Element.pagePath?_eq_some.mp hpage
          rw [he] at hlisted
          cases hlisted

/-- What may stand in a scope where contacts are still to be shown may do so anyway. -/
theorem Of.shown (h : s.Of true i d) : s.Of false i d := by
  induction d using Document.induct generalizing i with
  | node e span ih =>
    have hf := h.fits
    refine .intro ⟨fun path hpath => ?_, hf.outermost, hf.inclusion, hf.contents, hf.own, hf.quiet⟩
      fun c hc => ?_
    · obtain ⟨hne, hcell, _⟩ := hf.page path hpath
      exact ⟨hne, hcell, nofun⟩
    · obtain ⟨j, hj, hof⟩ := h.held hc
      exact ⟨j, ⟨hj.context, hj.quiet, hj.heading, hj.cell, nofun⟩, ih c hc hof⟩

/-! ## Documents that are put together -/

/-- A document may stand in others in a scope. -/
def Admits (s : Sources) (contacts : Bool) (i : Scope) (d : Document) : Prop :=
  ∃ k, Scope.Under contacts i k ∧ s.Of contacts k d

/-- A plain element may stand in every scope, and hold what may stand in others there. -/
theorem of_fill (h : d.IsFill) (hheld : ∀ c ∈ d.element.children,
      ∃ k, Scope.Under contacts i k ∧ (d.element.isTable = true → k.cell = true) ∧
        s.Of contacts k c) : s.Of contacts i d := by
  cases d with
  | node e span =>
    have hplain : e.bare.isPlain = true := (e.isPlain_refill []).trans h.plain
    have hpage := Element.pagePath?_eq_none.mpr (Element.isPage_of_isPlain hplain)
    have hstands := Element.standsForNothing hplain
    obtain rfl : span = none := h.span
    refine .intro ⟨fun path hpath => ?_, fun path hpath => ?_, fun he => ?_, fun he => ?_,
      fun _ _ => nofun, fun _ _ => rfl⟩ fun c hc => ?_
    · rw [hpage] at hpath
      cases hpath
    · rw [hpage] at hpath
      cases hpath
    · rw [hstands.inclusion] at he
      cases he
    · rw [hstands.contents] at he
      cases he
    · obtain ⟨k, hk, hcell, hof⟩ := hheld c hc
      refine ⟨k, ⟨?_, fun _ => hk.quiet, fun hlisted => ?_, fun htable => hcell ?_,
        fun htrue hcontact => ?_⟩, hof⟩
      · rw [hpage]
        exact hk.context
      · have hheading := hstands.heading
        rw [Element.isHeading_of_isListed hlisted] at hheading
        cases hheading
      · exact (Element.isTable_bare e).symm.trans htable
      · rw [hstands.contact] at hcontact
        exact hk.contact htrue (hcontact.resolve_left nofun)

/-- A plain element may be in a cell as well as elsewhere. -/
theorem Of.inCell (h : s.Of contacts i d) (hfill : d.IsFill) (cell : Bool) :
    s.Of contacts { i with cell := cell } d := by
  refine of_fill hfill fun c hc => ?_
  obtain ⟨k, hk, hof⟩ := h.held hc
  change Scope.Holds s contacts d.element.bare i k at hk
  have hpage : pagePath? d.element.bare = none := by
    rw [pagePath?_bare, Element.pagePath?_eq_none]
    exact Element.isPage_of_isPlain hfill.plain
  obtain ⟨hcontext, hquiet, hcontact⟩ := hk.under hpage
  refine ⟨k, ⟨hcontext, hquiet, hcontact⟩, fun htable => hk.cell ?_, hof⟩
  rw [Element.isTable_bare]
  exact htable

/-- A plain element may stand in every scope around what may stand in others there. -/
theorem of_around (hfill : d.IsFill) (hheld : ∀ c ∈ d.element.children, s.Admits contacts i c)
    (hcells : d.element.isTable = true → ∀ c ∈ d.element.children, c.IsFill) :
    s.Of contacts i d := by
  refine of_fill hfill fun c hc => ?_
  obtain ⟨k, hk, hof⟩ := hheld c hc
  by_cases htable : d.element.isTable = true
  · exact ⟨{ k with cell := true }, ⟨hk.context, hk.quiet, hk.contact⟩, fun _ => rfl,
      Of.inCell hof (hcells htable c hc) true⟩
  · exact ⟨k, hk, fun h => absurd h htable, hof⟩

/-- What is put together around documents that may stand in others in a scope may stand in it. -/
theorem of_made {P : Document → Prop} (h : d.Made P) (hP : ∀ c, P c → s.Admits contacts i c) :
    s.Of contacts i d := by
  have hadmits : ∀ c, c.Around P → s.Admits contacts i c := by
    intro c hc
    induction hc with
    | given h => exact hP _ h
    | fill hfill _ hcells ih => exact ⟨i, .refl contacts i, of_around hfill ih hcells⟩
  exact of_around h.toIsFill (fun c hc => hadmits c (h.held c hc)) h.cells

/-- What is in a contact may take the place of the contact. -/
theorem Of.inContact (h : s.Of true i d) (hcontact : i.contact = true) {c : Document}
    (hc : d.Part c) : s.Admits true i c := by
  induction hc with
  | refl => exact ⟨i, .refl true i, h⟩
  | @tail b c _ hstep ih =>
    obtain ⟨k, hk, hof⟩ := ih
    obtain ⟨j, hj, hof'⟩ := hof.held hstep
    change Scope.Holds s true b.element.bare k j at hj
    have hpage : pagePath? b.element.bare = none := by
      rw [Option.eq_none_iff_forall_ne_some]
      intro path hpath
      have hfree := (hof.fits.page path hpath).2.2 rfl
      rw [hk.contact rfl hcontact] at hfree
      cases hfree
    exact ⟨j, hk.trans (hj.under hpage), hof'⟩

/-- A part of a page belongs to it, or to another page that is not the one that is shown. -/
theorem Of.inPage {page c : Document} {path : Option String} (h : s.Of contacts i page)
    (hpage : pagePath? page.element = some path) (hc : page.Part c) :
    ∃ k, s.Of contacts k c ∧
      ∃ inner, (pagePath? c.element).or k.context = some inner ∧ (inner = path ∨ inner ≠ s.home) := by
  induction hc with
  | refl => exact ⟨i, h, path, by rw [hpage, Option.some_or], Or.inl rfl⟩
  | @tail b c _ hstep ih =>
    obtain ⟨k, hof, inner, hinner, hcase⟩ := ih
    obtain ⟨j, hj, hof'⟩ := hof.held hstep
    have hcontext : j.context = some inner := by
      rw [← hinner, ← pagePath?_bare b.element]
      exact hj.context
    refine ⟨j, hof', ?_⟩
    rcases hpath : pagePath? c.element with _ | other
    · exact ⟨inner, hcontext, hcase⟩
    · have hne : j.context ≠ none := by rw [hcontext]; exact Option.some_ne_none inner
      have hbare : pagePath? c.element.bare = some other := (pagePath?_bare c.element).trans hpath
      exact ⟨other, rfl, Or.inr ((hof'.fits.page other hbare).1 hne)⟩

/-- What a heading in a page holds that has a line in the table of contents belongs to the page, or
has no range to edit. -/
theorem Of.inHeading {page : Document} {path : Option String} (h : s.Of contacts i page)
    (hpage : pagePath? page.element = some path) (hd : Placeholder.InHeading page d) :
    ∃ j, s.Of contacts j d ∧
      (j.context = some path ∨ j.context ≠ none ∧ j.quiet = true) := by
  obtain ⟨level, span, hpart, hlisted⟩ := hd
  obtain ⟨k, hof, inner, hinner, hcase⟩ := h.inPage hpage hpart
  obtain ⟨j, hj, hof'⟩ := hof.held (c := d) (by simp [element, Element.children])
  have hk : k.context = some inner := hinner
  have hcontext : j.context = some inner := hj.context.trans hk
  refine ⟨j, hof', ?_⟩
  rcases hcase with rfl | hne
  · exact Or.inl hcontext
  · refine Or.inr ⟨by rw [hcontext]; exact Option.some_ne_none inner, hj.heading hlisted ?_⟩
    rw [hk]
    exact fun he => hne (Option.some.inj he)

/-- A page that was put in at the top may be the page that is shown, if there was none. -/
theorem Of.atTop (h : s.Of contacts (.clear (some none)) d) (hpage : d.element.isPage = true)
    (hhome : s.home = none) : s.Of contacts (.clear none) d := by
  cases d with
  | node e span =>
    have hf := h.fits
    obtain ⟨path, hpath⟩ := Element.isPage_iff.mp hpage
    obtain ⟨child, rfl⟩ := Element.pagePath?_eq_some.mp hpath
    have hbare : pagePath? (Element.wrap (.page path) child).bare = some path := pagePath?_bare _
    refine .intro ⟨fun path' h => ⟨fun hne => absurd rfl hne, (hf.page path' h).2⟩,
      fun _ _ _ => Or.inl hhome, fun he => ?_, hf.contents, fun h => ?_, hf.quiet⟩ fun c hc => ?_
    · rw [Element.isLeaf_bare] at he
      cases he
    · rw [hbare] at h
      cases h
    · obtain ⟨j, hj, hof⟩ := h.held hc
      change Scope.Holds s contacts (Element.wrap (.page path) child).bare _ j at hj
      refine ⟨j, ⟨?_, hj.quiet, fun hlisted => ?_, hj.cell, hj.contact⟩, hof⟩
      · rw [hj.context, hbare]
        rfl
      · rw [Element.isWrap_bare] at hlisted
        cases hlisted

end Sources

end WikiHtml
