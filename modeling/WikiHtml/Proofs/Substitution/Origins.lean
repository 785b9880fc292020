-- Where the links to the editor of a finished page lead. What each pass puts in may stand in the
-- scope of the node that it is put in for; so all elements stay in their scopes, and each link opens
-- the page that it stands in.
import WikiHtml.Proofs.Document.Scopes
import WikiHtml.Proofs.Html.Drawn
import WikiHtml.Proofs.Substitution.Included
import WikiHtml.Proofs.Substitution.Pipeline
import WikiHtml.Proofs.Substitution.ProperTree

namespace WikiHtml.Substitution

open Document Calendar

section

variable {s : Sources} {pending : Bool} {γ : NodeId → Option Scope} {t : Tree} {o : Outline}
  {above : List NodeId} {i base : Scope} {d : Document}

/-! ## The pages around a node -/

/-- A node belongs to the innermost page above it. -/
theorem Lineage.context (h : Lineage (s.scopes pending) γ t base i above) :
    i.context = (t.pathsAbove above).head?.or base.context := by
  induction above generalizing i with
  | nil => exact congrArg Scope.context h
  | cons a rest ih =>
    obtain ⟨j, _, hh, hrest⟩ := h
    have hcontext : i.context = (pagePath? (t.element a).bare).or j.context := hh.context
    rw [hcontext, pagePath?_bare, ih hrest, Tree.pathsAbove_cons, around, List.head?_append,
      Option.or_assoc]
    cases pagePath? (t.element a) <;> rfl

/-- Every node that belongs to a page is in the page that is shown. -/
theorem Lineage.home (h : Lineage (s.scopes pending) γ t base i above)
    (hg : (s.scopes pending).Graded γ t) (hbase : base.context = none) (hi : i.context ≠ none)
    {path : String} (hhome : s.home = some path) : some path ∈ t.pathsAbove above := by
  induction above generalizing i with
  | nil => exact absurd ((congrArg Scope.context h).trans hbase) hi
  | cons a rest ih =>
    obtain ⟨j, hj, hh, hrest⟩ := h
    rw [Tree.pathsAbove_cons, around, List.mem_append]
    have hcontext : i.context = (pagePath? (t.element a).bare).or j.context := hh.context
    rcases hnone : j.context with _ | context
    · rw [hnone, Option.or_none] at hcontext
      obtain ⟨path', hpath⟩ := Option.ne_none_iff_exists'.mp (hcontext ▸ hi)
      have houtermost := (hg.fits hj).outermost path' hpath hnone
      rw [hhome] at houtermost
      obtain rfl := houtermost.resolve_left (Option.some_ne_none path)
      rw [pagePath?_bare] at hpath
      exact Or.inl (Option.mem_toList.mpr hpath)
    · exact Or.inr (ih hrest (by rw [hnone]; exact Option.some_ne_none context))

/-! ## What the passes put in -/

/-- A page that is put in is not the one that is shown: this is around all nodes. -/
theorem stored_ne_home (site : t.Site o above none) (hg : (s.scopes pending).Graded γ t)
    (hl : Lineage (s.scopes pending) γ t base i above) (hi : i.context ≠ none)
    (hbase : base.context = none ∨ s.home = none)
    (hleaf : (t.element o.id).isLeaf Leaf.isInclusion = true) {path : String}
    (hinside : isInside t path o.id = false) : some path ≠ s.home := by
  intro hhome
  have hnone : base.context = none := hbase.resolve_right (by rw [← hhome]; nofun)
  have hpage : pagePath? (t.element o.id) = none := by
    rw [Element.pagePath?_eq_none]
    exact Element.isPage_of_isLeaf hleaf
  rw [(isInside_iff site hpage).mpr (hl.home hg hnone hi hhome.symm)] at hinside
  cases hinside

theorem inclusion_fits (hs : s.Apart) (hr : s.stored.Keyed)
    (hbase : base.context = none ∨ s.home = none) :
    (inclusion s.stored).Fits (s.scopes true) base (s.Of true) where
  put {γ t o above i d} site hg hi hl hd := by
    have hleaf : (t.element o.id).isLeaf Leaf.isInclusion = true := by
      refine Bool.of_not_eq_false fun h => ?_
      rw [inclusion_keeps.mpr h] at hd
      cases hd
    have hfree := (hg.fits hi).inclusion (by rwa [Element.isLeaf_bare])
    obtain ⟨path, hinside, hget⟩ := inclusion_put hd
    have hne := stored_ne_home site hg hl hfree.1 hbase hleaf hinside
    exact hs.of_stored hne hget (hr.get? hget).2 hfree
  of h := h

theorem contacts_fits (s : Sources) (today : Date) (base : Scope) :
    (contacts today).Fits (s.scopes true) base (s.Of true) where
  put {γ t o above i d} _ hg hi _ hd := by
    obtain ⟨hcontact, hmade⟩ := contacts_made hd
    refine Sources.of_made hmade ?_
    rintro c ⟨child, hchild, content, hdoc, hpart⟩
    obtain ⟨j, hj, hh⟩ := hg.holds hi hchild
    change Scope.Holds s true (t.element o.id).bare i j at hh
    have hpage : pagePath? (t.element o.id).bare = none := by
      rw [pagePath?_bare, Element.pagePath?_eq_none]
      exact Element.isPage_of_isContact hcontact
    have hin : j.contact = true := hh.contact rfl (Or.inl ((Element.isWrap_bare _).trans hcontact))
    obtain ⟨k, hk, hof⟩ := Sources.Of.inContact (hg.documentWithin hj hdoc) hin hpart
    exact ⟨k, (hh.under hpage).trans hk, hof⟩
  of h := h

theorem events_fits (s : Sources) (pending : Bool) (settings : Settings) (today : Date)
    (base : Scope) : (events s.stored settings today).Fits (s.scopes pending) base (s.Of pending)
    where
  put {γ t o above i d} _ _ _ _ hd := by
    obtain ⟨_, es, rfl⟩ := events_put hd
    exact Sources.of_made (P := fun _ => False) (Event.made_table settings es) fun _ h => h.elim
  of h := h

/-- A table of contents holds what the headings of the page hold, and this belongs to the page or has
no range to edit. -/
theorem of_contentsOf (site : t.Site o above none) (hg : (s.scopes false).Graded γ t)
    (hi : γ o.id = some i) (hl : Lineage (s.scopes false) γ t base i above)
    (hleaf : (t.element o.id).isLeaf Leaf.isContents = true) : s.Of false i (contentsOf t o.id) := by
  have hloud : i.quiet = false := (hg.fits hi).contents (by rwa [Element.isLeaf_bare])
  refine Sources.of_made (contentsOf_made site hg hl hleaf) ?_
  rintro c ⟨p, k, page, hfound, hk, hof, hbare, hc⟩
  have hispage : (t.element p).isPage = true := by
    simpa using List.find?_some hfound
  have hpath : pagePath? page.element = some (t.pagePath p) := by
    rw [← pagePath?_bare, hbare, pagePath?_bare, Tree.pagePath?_eq, if_pos hispage]
  have hcontext : i.context = some (t.pagePath p) := by
    rw [hl.context, Tree.head?_pathsAbove, hfound, Option.map_some, Option.some_or]
  obtain ⟨j, hof', hj | ⟨hj, hquiet⟩⟩ := Sources.Of.inHeading hof hpath hc
  · exact ⟨j, ⟨hj.trans hcontext.symm, fun h => absurd h (Bool.eq_false_iff.mp hloud), nofun⟩, hof'⟩
  · exact ⟨{ j with context := i.context }, ⟨rfl, fun _ => hquiet, nofun⟩,
      Sources.Of.moved hof' hquiet hj (by rw [hcontext]; nofun)⟩

theorem placeholders_fits (s : Sources) (settings : Settings) (now : Moment) (base : Scope) :
    (placeholders s.stored settings now).Fits (s.scopes false) base (s.Of false) where
  put {γ t o above i d} site hg hi hl hd := by
    rcases placeholders_put hd with ⟨hcontents, rfl⟩ | ⟨_, hmade⟩
    · exact of_contentsOf site hg hi hl hcontents
    · exact Sources.of_made hmade fun _ h => h.elim
  of h := h

/-! ## Whole passes -/

theorem pass_keeps_page {r : Repository} {settings : Settings} {now : Moment} {pass : Pass}
    (hp : pass ∈ passes r settings now) {id : NodeId} (h : (t.element id).isPage = true) :
    pass t id = .ok .keep := by
  obtain ⟨path, hpath⟩ := Element.isPage_iff.mp h
  obtain ⟨child, he⟩ := Element.pagePath?_eq_some.mp hpath
  simp only [passes, List.mem_cons, List.not_mem_nil, or_false] at hp
  rcases hp with rfl | rfl | rfl | rfl
  · simp only [inclusion, he]
  · simp only [Substitution.contacts, he]
  · simp only [events, he]
  · simp only [placeholders, he]

/-- A tree whose elements are in their scopes. -/
structure InScopes (s : Sources) (pending : Bool) (t : Tree) (o : Outline) : Prop extends
    Whole t o where
  home : (t.element o.id).isPage = false → s.home = none
  shown : s.Of pending (.atTop (t.element o.id)) (t.shown o.id)

/-- A pass leaves all elements in their scopes, and a page at the top. -/
theorem InScopes.apply {t' : Tree} {rep : Repository} {pass : Pass} {puts : Scope → Document → Prop}
    (h : InScopes s pending t o)
    (hp : pass.Fits (s.scopes pending) (.atTop (t.element o.id)) puts)
    (hkeep : (t.element o.id).isPage = true → pass t o.id = .ok .keep)
    (happly : pass.apply rep t = .ok t') :
    ∃ o', InScopes s pending t' o' ∧ (t'.element o'.id).isPage = true := by
  obtain ⟨r, t₁, visits, hrun, rfl⟩ := run_of_apply h.toWhole happly
  obtain ⟨γ, hg, _, _, hbase, rfl⟩ :=
    Grading.gradable_of_shown h.stands.spans h.stands.nodup h.shown
  obtain ⟨γ₁, hk₁, hr, _⟩ := (run_graded hp).1 hrun γ _ hg hbase rfl
  obtain ⟨γ₂, hk₂, htop⟩ := Keeps.patched hk₁.graded hr
  have hstands := pass_stands hrun
  obtain ⟨hwhole, hpage⟩ := whole_after hrun
  have hof : s.Of pending (.atTop (t.element o.id)) ((patch t₁ r).2.shown (patch t₁ r).1.id) := by
    rw [Tree.shown_eq_along hstands.spans hstands.nodup]
    exact hk₂.graded.documentWithin htop (Tree.document?_eq_along hstands.spans hstands.nodup)
  refine ⟨_, ⟨hwhole, fun h => absurd hpage (by rw [h]; nofun), ?_⟩, hpage⟩
  rw [Scope.atTop, if_pos hpage, cap_shown t o.id hstands (by simp), paged]
  rcases hroot : (t.element o.id).isPage with _ | _
  · have hhome := h.home hroot
    rw [Scope.atTop, hroot] at hof
    split
    · exact Sources.Of.atTop hof ‹_› hhome
    · have hpath : t.pagePath o.id = none := by
        rw [Option.eq_none_iff_forall_ne_some]
        intro path hpath
        rw [Tree.isPage_of_pagePath hpath] at hroot
        cases hroot
      rw [hpath]
      exact Sources.of_page (fun hne => absurd rfl hne) (fun _ => Or.inl hhome) rfl (fun _ => rfl)
        fun c hc => Option.mem_some_iff.mp hc ▸ hof
  · have hstays := page_stays hroot (hkeep hroot) hrun
    rw [Scope.atTop, if_pos hroot] at hof
    rw [isPage_shown hstands, if_pos hstays]
    exact hof

theorem applyAll_cons_ok {pass : Pass} {rest : List Pass} {r : Repository} {t' : Tree} :
    applyAll (pass :: rest) r t = .ok t' ↔
      ∃ t₁, pass.apply r t = .ok t₁ ∧ applyAll rest r t₁ = .ok t' := by
  rw [applyAll, List.foldlM_cons]
  rcases pass.apply r t with stop | t₁
  · constructor
    · intro h
      cases h
    · rintro ⟨_, h, _⟩
      cases h
  · constructor
    · intro h
      exact ⟨t₁, rfl, h⟩
    · rintro ⟨_, h, h'⟩
      cases h
      exact h'

/-- The elements of a tree are in their scopes where it was read from a document. -/
theorem inScopes_ofDocument (hs : s.Apart) :
    ∃ o, InScopes s true (Tree.ofDocument s.main) o := by
  obtain ⟨o, hw, hshown⟩ := ofDocument_whole s.main
  have hpage := isPage_shown hw.stands
  rw [hshown] at hpage
  refine ⟨o, hw, fun hroot => ?_, ?_⟩
  · rw [Sources.home, Element.pagePath?_eq_none.mpr (hpage.trans hroot)]
    rfl
  · rw [hshown, Scope.atTop, ← hpage]
    exact hs.of_main

/-- After all passes the elements are in their scopes. -/
theorem inScopes_of_passes (hr : s.stored.Keyed) (hs : s.Apart) {settings : Settings} {now : Moment}
    {t' : Tree} (h : applyAll (passes s.stored settings now) s.stored (Tree.ofDocument s.main) =
      .ok t') : ∃ o, InScopes s false t' o ∧ (t'.element o.id).isPage = true := by
  obtain ⟨t₁, h₁, h⟩ := applyAll_cons_ok.mp h
  obtain ⟨t₂, h₂, h⟩ := applyAll_cons_ok.mp h
  obtain ⟨t₃, h₃, h⟩ := applyAll_cons_ok.mp h
  obtain ⟨t₄, h₄, h⟩ := applyAll_cons_ok.mp h
  cases h
  have hkeep : ∀ {pass : Pass}, pass ∈ passes s.stored settings now → ∀ t x,
      (t.element x).isPage = true → pass t x = .ok .keep := fun hp t x h => pass_keeps_page hp h
  obtain ⟨o, hin⟩ := inScopes_ofDocument hs
  have hbase : (Scope.atTop ((Tree.ofDocument s.main).element o.id)).context = none ∨
      s.home = none := by
    rcases hroot : ((Tree.ofDocument s.main).element o.id).isPage with _ | _
    · exact Or.inr (hin.home hroot)
    · exact Or.inl (by simp [Scope.atTop, Scope.clear, hroot])
  obtain ⟨o₁, hin₁, _⟩ :=
    hin.apply (inclusion_fits hs hr hbase) (hkeep (by simp [passes]) _ _) h₁
  obtain ⟨o₂, hin₂, _⟩ :=
    hin₁.apply (contacts_fits s now.date _) (hkeep (by simp [passes]) _ _) h₂
  have hshown : InScopes s false t₂ o₂ := ⟨hin₂.toWhole, hin₂.home, hin₂.shown.shown⟩
  obtain ⟨o₃, hin₃, _⟩ :=
    hshown.apply (events_fits s false settings now.date _) (hkeep (by simp [passes]) _ _) h₃
  exact hin₃.apply (placeholders_fits s settings now _) (hkeep (by simp [passes]) _ _) h₄

/-- For all stored pages and every document, where all trees have pages at the top only: after all
passes every link to the editor is for a range of the page that it stands in, from the start of an
element in the tree of this page to the start or the end of one. This holds unless an element gets
into another page without the page that it belongs to: no cell of a table holds just a page that is
put in, no contact asks for a page, and the headings of stored pages that have lines in tables of
contents hold nothing to edit. -/
theorem edit_links_open_the_page_they_stand_in (pages : List (String × Document))
    (main : Document) (settings : Settings) (now : Moment) (v : Html.View) {t' : Tree} :
    let r := Repository.ofPages pages
    let s : Sources := ⟨main, r⟩
    s.Apart → applyAll (passes r settings now) r (Tree.ofDocument main) = .ok t' →
      ∃ acts, Html.EditsOnly s.Opens acts ∧ ∀ messages,
        Html.page (v.withSettings messages) t'.rootDocument =
          Html.Writer.empty.perform (acts.map (Html.Act.map (Html.Piece.fill messages))) := by
  intro r s hs h
  obtain ⟨o, ht, hpage⟩ := inScopes_of_passes (s := s) (Repository.keyed_ofPages pages) hs h
  have hof := ht.shown
  rw [Scope.atTop, if_pos hpage, ← ht.rootDocument] at hof
  obtain ⟨acts, _, _, hedits, hperform⟩ :=
    Html.page_performed s.Opens v (Sources.opens_of hof)
  exact ⟨acts, hedits, hperform⟩

end

/-! ## A page that asks for another one -/

/-- A page with a table of contents that asks for another page. -/
def askingPage : Document :=
  .node (.wrap (.page (some "/p")) (some (.node (.list [.node (.leaf .tableOfContents) none,
    .node (.leaf (.includePage "/q")) none]) none))) none

/-- A block of code in the source text of its page. -/
def codeBlock : Document :=
  .node (.leaf (.code none "x")) (some ⟨5, 9⟩)

/-- A page with a heading and a block of code below. -/
def codeBelowHeading : Document :=
  .node (.wrap (.page (some "/q")) (some (.node (.list [.node (.wrap (.heading 1)
    (some (.node (.leaf (.text "x")) none))) none, codeBlock]) none))) none

/-- The page with that one put in. -/
def headingIncluded : Tree :=
  ⟨#[⟨.leaf .tableOfContents, none, some 2⟩, ⟨.leaf (.includePage "/q"), none, none⟩,
    ⟨.list [0, 8], none, some 3⟩, ⟨.wrap (.page (some "/p")) (some 2), none, none⟩,
    ⟨.leaf (.text "x"), none, some 5⟩, ⟨.wrap (.heading 1) (some 4), none, some 7⟩,
    ⟨.leaf (.code none "x"), some ⟨5, 9⟩, some 7⟩, ⟨.list [5, 6], none, some 8⟩,
    ⟨.wrap (.page (some "/q")) (some 7), none, some 2⟩], some 3⟩

/-- The page after all passes: node 10 is a copy of the text of the heading, which is node 4. -/
def headingListed : Tree :=
  ⟨#[⟨.leaf .tableOfContents, none, none⟩, ⟨.leaf (.includePage "/q"), none, none⟩,
    ⟨.list [14, 8], none, some 3⟩, ⟨.wrap (.page (some "/p")) (some 2), none, none⟩,
    ⟨.leaf (.text "x"), none, some 5⟩, ⟨.wrap (.heading 1) (some 4), none, some 7⟩,
    ⟨.leaf (.code none "x"), some ⟨5, 9⟩, some 7⟩, ⟨.list [5, 6], none, some 8⟩,
    ⟨.wrap (.page (some "/q")) (some 7), none, some 2⟩, ⟨.leaf (.text "1. "), none, some 11⟩,
    ⟨.leaf (.text "x"), none, some 11⟩, ⟨.list [9, 10], none, some 12⟩,
    ⟨.wrap (.linkPage none (some "x")) (some 11), none, some 13⟩,
    ⟨.wrap (.paragraph false 1 false) (some 12), none, some 14⟩, ⟨.list [13], none, some 2⟩],
    some 3⟩

/-- A page is put in first, and the placeholders are filled in last. -/
theorem applyAll_of_pages {r : Repository} {settings : Settings} {now : Moment} {t t' : Tree}
    (included : Tree) (h₁ : page (inclusion r).rule 16 t () = .ok (included, ()))
    (h₂ : page (contacts now.date).rule 16 included () = .ok (included, ()))
    (h₃ : page (events r settings now.date).rule 16 included () = .ok (included, ()))
    (h₄ : page (placeholders r settings now).rule 16 included () = .ok (t', ())) :
    applyAll (passes r settings now) r t = .ok t' := by
  have happly : ∀ {pass : Pass} {t t' : Tree}, page pass.rule 16 t () = .ok (t', ()) →
      pass.apply r t = .ok t' := fun h => by
    rw [apply_eq_page r (by rw [h]; nofun), h]
    rfl
  rw [passes, applyAll_cons (happly h₁), applyAll_cons (happly h₂), applyAll_cons (happly h₃),
    applyAll_cons (happly h₄)]
  rfl

theorem apart_codeBelowHeading :
    (Sources.mk askingPage (.ofPages [("/q", codeBelowHeading)])).Apart where
  main := by decide
  stored {path d} _ hget := by
    obtain ⟨before, after, hpages, _⟩ := List.lookup_eq_some_iff.mp hget
    have hmem : (path, d) ∈ before ++ (path, d) :: after := by simp
    rw [← hpages] at hmem
    obtain rfl : d = codeBelowHeading := (Prod.mk.inj (List.mem_singleton.mp hmem)).2
    decide

/-- The code is drawn with a link that opens the page that it was written in. -/
theorem code_below_a_heading_is_edited_in_its_page :
    let r := Repository.ofPages [("/q", codeBelowHeading)]
    let s : Sources := ⟨askingPage, r⟩
    s.Apart ∧
      applyAll (passes r .standard noon) r (Tree.ofDocument askingPage) = .ok headingListed ∧
      "<div class=\"code\">" ++ Html.editLink .standard "/q" ⟨5, 9⟩ Html.codeMark ++ "x</div>" ∈
        (Html.page ⟨r, .standard, true⟩ headingListed.rootDocument).body ∧
      ∃ acts, Html.EditsOnly s.Opens acts ∧ ∀ messages,
        Html.page (Html.View.withSettings ⟨r, .standard, true⟩ messages)
            headingListed.rootDocument =
          Html.Writer.empty.perform (acts.map (Html.Act.map (Html.Piece.fill messages))) := by
  intro r s
  have hall : applyAll (passes r .standard noon) r (Tree.ofDocument askingPage) =
      .ok headingListed := applyAll_of_pages headingIncluded rfl rfl rfl rfl
  exact ⟨apart_codeBelowHeading, hall, by decide +kernel,
    edit_links_open_the_page_they_stand_in [("/q", codeBelowHeading)] askingPage .standard noon
      ⟨r, .standard, true⟩ apart_codeBelowHeading hall⟩

/-- A page with a block of code in a heading. -/
def codeInHeading : Document :=
  .node (.wrap (.page (some "/q")) (some (.node (.wrap (.heading 1) (some codeBlock)) none))) none

/-- The page with that one put in. -/
def codeIncluded : Tree :=
  ⟨#[⟨.leaf .tableOfContents, none, some 2⟩, ⟨.leaf (.includePage "/q"), none, none⟩,
    ⟨.list [0, 6], none, some 3⟩, ⟨.wrap (.page (some "/p")) (some 2), none, none⟩,
    ⟨.leaf (.code none "x"), some ⟨5, 9⟩, some 5⟩, ⟨.wrap (.heading 1) (some 4), none, some 6⟩,
    ⟨.wrap (.page (some "/q")) (some 5), none, some 2⟩], some 3⟩

/-- The page after all passes: node 8 is a copy of the block of code, which is node 4. -/
def codeListed : Tree :=
  ⟨#[⟨.leaf .tableOfContents, none, none⟩, ⟨.leaf (.includePage "/q"), none, none⟩,
    ⟨.list [12, 6], none, some 3⟩, ⟨.wrap (.page (some "/p")) (some 2), none, none⟩,
    ⟨.leaf (.code none "x"), some ⟨5, 9⟩, some 5⟩, ⟨.wrap (.heading 1) (some 4), none, some 6⟩,
    ⟨.wrap (.page (some "/q")) (some 5), none, some 2⟩, ⟨.leaf (.text "1. "), none, some 9⟩,
    ⟨.leaf (.code none "x"), some ⟨5, 9⟩, some 9⟩, ⟨.list [7, 8], none, some 10⟩,
    ⟨.wrap (.linkPage none (some "")) (some 9), none, some 11⟩,
    ⟨.wrap (.paragraph false 1 false) (some 10), none, some 12⟩, ⟨.list [11], none, some 2⟩],
    some 3⟩

/-- There are no pages but at the top, and yet the code in the heading stands in the table of contents
with a link that opens the page around the table, in whose tree nothing has a range. -/
theorem code_in_a_heading_is_edited_in_the_page_that_lists_it :
    let r := Repository.ofPages [("/q", codeInHeading)]
    askingPage.PageAtTop ∧ codeInHeading.PageAtTop ∧
      applyAll (passes r .standard noon) r (Tree.ofDocument askingPage) = .ok codeListed ∧
      "    <div class=\"code\">" ++ Html.editLink .standard "/p" ⟨5, 9⟩ Html.codeMark ++ "x</div>" ∈
        (Html.page ⟨r, .standard, true⟩ codeListed.rootDocument).body ∧
      ¬(Sources.mk askingPage r).Opens ⟨"/p", ⟨5, 9⟩⟩ := by
  intro r
  refine ⟨by decide, by decide, applyAll_of_pages codeIncluded rfl rfl rfl rfl,
    by decide +kernel, ?_⟩
  rintro ⟨d, hd, ⟨a, ha, _⟩, _⟩
  obtain rfl : askingPage = d := Option.some.inj hd
  have hnone : askingPage.spans = [] := by decide
  rw [hnone] at ha
  cases ha

end WikiHtml.Substitution
