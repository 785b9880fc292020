-- What stands in a page once others are put into it: its own elements and those of the pages that
-- were put in, and each of them still belongs to the page that it was written in. So every link
-- leads where it led before.
import WikiHtml.Proofs.Substitution.Passes
import WikiHtml.Proofs.Substitution.Recursion
import WikiHtml.Proofs.Tree.Links

namespace WikiHtml.Substitution

open Document

/-! ## The pages around a node -/

section

variable {t t' : Tree} {o : Outline} {above : List NodeId} {path : String}

/-- The nodes above a page that is passed on the way up come after it. -/
theorem chain_above {id page up : NodeId} (h : t.Chain id above none) (hp : page ∈ id :: above)
    (hup : t.parent page = some up) :
    ∃ rest, t.Chain up rest none ∧ rest.length < above.length ∧ ∀ x ∈ up :: rest, x ∈ above := by
  induction above generalizing id with
  | nil =>
    obtain rfl := List.mem_singleton.mp hp
    have hnone : t.parent page = none := h
    rw [hnone] at hup
    cases hup
  | cons a as ih =>
    obtain ⟨hparent, hrest⟩ := h
    rcases List.mem_cons.mp hp with rfl | hp
    · obtain rfl : a = up := Option.some.inj (hparent.symm.trans hup)
      exact ⟨as, hrest, by simp, fun x hx => hx⟩
    · obtain ⟨rest, hchain, hlength, hmem⟩ := ih hrest hp
      exact ⟨rest, hchain, Nat.lt_succ_of_lt hlength, fun x hx => List.mem_cons_of_mem a (hmem x hx)⟩

theorem mem_of_isInsideWithin {pages : Nat} {id : NodeId} (hc : t.Chain id above none)
    (hl : above.length < t.size) (h : isInsideWithin t path pages id = true) :
    ∃ x ∈ id :: above, t.pagePath x = some path := by
  induction pages generalizing id above with
  | zero => cases h
  | succ pages ih =>
    rw [isInsideWithin, Tree.contextPage, Tree.contextWithin_eq_find hc hl] at h
    cases hfind : (id :: above).find? fun x => (t.element x).isPage with
    | none =>
      rw [hfind] at h
      cases h
    | some page =>
      have hpage := List.mem_of_find?_eq_some hfind
      simp only [hfind, Bool.or_eq_true, beq_iff_eq] at h
      rcases h with h | h
      · exact ⟨page, hpage, h⟩
      · cases hup : t.parent page with
        | none => simp [hup] at h
        | some up =>
          simp only [hup] at h
          obtain ⟨rest, hchain, hlength, hmem⟩ := chain_above hc hpage hup
          obtain ⟨x, hx, hpath⟩ := ih hchain (Nat.lt_trans hlength hl) h
          exact ⟨x, List.mem_cons_of_mem id (hmem x hx), hpath⟩

theorem mem_pathsAbove : some path ∈ t.pathsAbove above ↔ ∃ x ∈ above, t.pagePath x = some path := by
  have hpage : ∀ x, pagePath? (t.element x) = some (some path) ↔ t.pagePath x = some path := by
    intro x
    rw [Tree.pagePath?_eq]
    constructor
    · intro h
      split at h
      · exact Option.some.inj h
      · cases h
    · intro h
      rw [Tree.isPage_of_pagePath h, if_pos rfl, h]
  simp only [Tree.pathsAbove, List.mem_filterMap, hpage]

/-- A node is found to be inside of the pages with the paths around it. -/
theorem isInside_iff (hs : t.Site o above none) (hpage : pagePath? (t.element o.id) = none) :
    isInside t path o.id = true ↔ some path ∈ t.pathsAbove above := by
  constructor
  · intro h
    have hmem := mem_pathsAbove.mpr (mem_of_isInsideWithin hs.chain hs.length_above h)
    rwa [Tree.pathsAbove_cons, around, hpage] at hmem
  · intro h
    exact isInside_of_mem hs (mem_pathsAbove.mp h)

/-- The pages above stay the same while the tree grows. -/
theorem pathsAbove_grows (h : t.Grows t') (ha : ∀ x ∈ above, x < t.size) :
    t'.pathsAbove above = t.pathsAbove above := by
  refine List.filterMap_congr fun x hx => ?_
  rw [← pagePath?_bare (t'.element x), h.bare_eq (ha x hx), pagePath?_bare]

end

/-! ## Where a page is asked for -/

section

variable {r : Repository} {t : Tree} {o : Outline} {above : List NodeId} {path : String}

/-- Where a path is asked for, the page comes that is to come there, or nothing. -/
theorem inclusion_asked (hs : t.Site o above none)
    (he : t.element o.id = .leaf (.includePage path)) :
    (∃ page, inclusion r t o.id = .ok (.put page) ∧
      ∀ page', Puts r (t.pathsAbove above) path page' ↔ page' = page) ∨
    (inclusion r t o.id = .ok .delete ∧ ∀ page, ¬Puts r (t.pathsAbove above) path page) := by
  have hcontext : t.absolutePath (some path) (t.contextPage o.id false) =
      absolutePath (some path) (t.pathsAbove above).head? := by
    rw [hs.absolutePath, Tree.pathsAbove_cons, he]
    rfl
  have hinside : ∀ absolute, isInside t absolute o.id = true ↔
      some absolute ∈ t.pathsAbove above := fun absolute => isInside_iff hs (by rw [he]; rfl)
  unfold inclusion
  rw [he]
  dsimp only
  rw [hcontext]
  cases habsolute : absolutePath (some path) (t.pathsAbove above).head? with
  | none => exact Or.inr ⟨rfl, fun page ⟨_, h, _⟩ => by rw [habsolute] at h; cases h⟩
  | some absolute =>
    dsimp only
    split
    · rename_i hin
      refine Or.inr ⟨rfl, fun page ⟨absolute', h, hnot, _⟩ => hnot ?_⟩
      rw [habsolute] at h
      exact Option.some.inj h ▸ (hinside absolute).mp hin
    · rename_i hin
      have hout : some absolute ∉ t.pathsAbove above := fun hmem =>
        hin ((hinside absolute).mpr hmem)
      cases hget : r.get? absolute with
      | none =>
        refine Or.inr ⟨rfl, fun page ⟨absolute', h, _, hpage⟩ => ?_⟩
        rw [habsolute] at h
        rw [← Option.some.inj h, hget] at hpage
        cases hpage
      | some page =>
        refine Or.inl ⟨page, rfl, fun page' => ⟨fun ⟨absolute', h, _, hpage⟩ => ?_, ?_⟩⟩
        · rw [habsolute] at h
          rw [← Option.some.inj h, hget] at hpage
          exact (Option.some.inj hpage).symm
        · rintro rfl
          exact ⟨absolute, habsolute, hout, hget⟩

end

/-! ## What stands after a run -/

section

variable {r : Repository} {t t' : Tree} {above : List NodeId} {x : Context × Element Empty}

theorem standing_emptyList (outer : Context) : standing outer emptyList = [] :=
  rfl

/-- What a node shows at which no page is asked for, in the tree before a run over what it holds
and in the tree after that. -/
theorem unfolded_held {c : Callback Unit Event.Fault} {p : NodeId} {held held' : List Outline}
    {s s' : Unit} {visits : List Visit} (hm : t.Midway p [] held above none)
    (hasked : asked? (t.element p) = none)
    (hrun : RunHeld c none p [] held above t s held' t' s' visits)
    (h : (∃ d ∈ showns t' held', x ∈ standing (t.pathsAbove (p :: above)).head? d) ↔
      ∃ d ∈ showns t held, Unfolded r (t.pathsAbove (p :: above)) d x) :
    x ∈ standing (t.pathsAbove above).head? (t'.shown p) ↔
      Unfolded r (t.pathsAbove above) (t.shown p) x := by
  obtain ⟨hchanges, _, hm', _⟩ := run_changes.2 hrun
  obtain ⟨hbare, hchildren⟩ := Grading.held_of_shown hm.spans hm.nodup
  obtain ⟨hbare', hchildren'⟩ := Grading.held_of_shown hm'.spans hm'.nodup
  rw [hchanges.toGrows.bare_eq hm.inside] at hbare'
  rw [List.append_nil] at hchildren'
  have hasked' : asked? (t.shown p).element = none := by
    rw [← asked?_bare, hbare, asked?_bare, hasked]
  have haround : around (t.pathsAbove above) (t.shown p).element = t.pathsAbove (p :: above) := by
    rw [Tree.pathsAbove_cons, around, around, ← pagePath?_bare, hbare, pagePath?_bare]
  rw [standing_node, unfolded_node hasked', Tree.contextOf_shown hbare', haround, hbare, hbare',
    hchildren, hchildren', List.mem_append, List.mem_flatMap]
  exact or_congr_right h

theorem asked?_cases {α : Type} (e : Element α) :
    asked? e = none ∨ ∃ path, e = .leaf (.includePage path) := by
  rcases e with members | ⟨w, child⟩ | ⟨params, rows⟩ | l
  · exact Or.inl rfl
  · exact Or.inl rfl
  · exact Or.inl rfl
  · cases l with
    | includePage path => exact Or.inr ⟨path, rfl⟩
    | _ => exact Or.inl rfl

theorem inclusion_keeps_iff {id : NodeId} :
    inclusion r t id = .ok .keep ↔ asked? (t.element id) = none := by
  rw [inclusion_keeps]
  rcases asked?_cases (t.element id) with h | ⟨path, h⟩
  · refine iff_of_true ?_ h
    rcases he : t.element id with members | ⟨w, child⟩ | ⟨params, rows⟩ | l
    · rfl
    · rfl
    · rfl
    · cases l with
      | includePage path =>
        rw [he] at h
        cases h
      | _ => rfl
  · rw [h]
    exact iff_of_false nofun nofun

theorem shown_asked {o : Outline} {path : String} (hs : t.Site o above none)
    (he : t.element o.id = .leaf (.includePage path)) :
    t.shown o.id = .node (.leaf (.includePage path)) (t.span o.id) := by
  cases o with
  | node id held =>
    rw [Outline.id_node] at he ⊢
    rw [Tree.shown_node hs.stands.spans hs.stands.nodup, he]
    rfl

/-- Where nothing is put in for a node, nothing stands there in the end. -/
theorem unfolded_deleted {o : Outline} (hs : t.Site o above none)
    (h : inclusion r t o.id = .ok .delete) :
    ¬Unfolded r (t.pathsAbove above) (t.shown o.id) x := by
  rcases asked?_cases (t.element o.id) with hkeep | ⟨path, he⟩
  · rw [inclusion_keeps_iff.mpr hkeep] at h
    cases h
  · rcases inclusion_asked (r := r) hs he with ⟨page, hput, _⟩ | ⟨_, hnone⟩
    · rw [hput] at h
      cases h
    · rw [shown_asked hs he, unfolded_asked]
      rintro ⟨page, hputs, _⟩
      exact hnone page hputs

/-- Where a page is put in for a node, there stands in the end what stands in the page. -/
theorem unfolded_put {o : Outline} {page : Document} (hs : t.Site o above none)
    (h : inclusion r t o.id = .ok (.put page)) :
    Unfolded r (t.pathsAbove above) (t.shown o.id) x ↔
      Unfolded r (t.pathsAbove above) page x := by
  rcases asked?_cases (t.element o.id) with hkeep | ⟨path, he⟩
  · rw [inclusion_keeps_iff.mpr hkeep] at h
    cases h
  · rcases inclusion_asked (r := r) hs he with ⟨page', hput, honly⟩ | ⟨hdelete, _⟩
    · obtain rfl : page' = page := by
        rw [hput] at h
        cases h
        rfl
      rw [shown_asked hs he, unfolded_asked]
      constructor
      · rintro ⟨page, hputs, hx⟩
        exact (honly page).mp hputs ▸ hx
      · intro hx
        exact ⟨page', (honly page').mpr rfl, hx⟩
    · rw [hdelete] at h
      cases h

/-- After a run there stands what is to stand there once all pages are put in. -/
theorem run_unfolded (hr : r.Keyed) :
    (∀ {o above t s res t' s' visits},
      Run (inclusion r).callback none o above t s res t' s' visits → ∀ x,
      ((∃ o', res = some o' ∧ x ∈ standing (t.pathsAbove above).head? (t'.shown o'.id)) ↔
        Unfolded r (t.pathsAbove above) (t.shown o.id) x)) ∧
    (∀ {p front rest above t s held' t' s' visits},
      RunHeld (inclusion r).callback none p front rest above t s held' t' s' visits →
      ∃ mid, held' = front ++ mid ∧ ∀ x,
        ((∃ d ∈ showns t' mid, x ∈ standing (t.pathsAbove (p :: above)).head? d) ↔
          ∃ d ∈ showns t rest, Unfolded r (t.pathsAbove (p :: above)) d x)) := by
  refine run_induct ?_ ?_ ?_ ?_ ?_ ?_
  · rintro id held held' above t t' s s' visits site hl hrest ⟨mid, hmid, ih⟩ x
    obtain rfl : held' = mid := hmid
    have hasked : asked? (t.element id) = none := by
      cases he : t.element id with
      | list members => rfl
      | _ =>
        rw [he] at hl
        cases hl
    simp only [Option.some.injEq, exists_eq_left', Outline.id_node]
    exact unfolded_held site.midway hasked hrest (ih x)
  · intro o above t s s' m site hl hc ht x
    obtain ⟨verdict, hv, rfl⟩ := pass_decided.mp hc
    have hdelete : verdict = .delete := by
      cases verdict with
      | delete => rfl
      | _ => simp [Verdict.move, Move.take, Move.run] at ht
    rw [hdelete] at hv
    refine iff_of_false ?_ (unfolded_deleted site hv)
    rintro ⟨_, hkept, _⟩
    cases hkept
  · rintro o new held held' above t t₁ t' s s₁ s' m visits site hl hc ht site' hg _ hleads hrest
      ⟨mid, hmid, ih⟩ x
    obtain rfl : held' = mid := hmid
    simp only [Option.some.injEq, exists_eq_left', Outline.id_node]
    have hpaths := pathsAbove_grows hg.changes.toGrows fun y hy => (site.apart y hy).1
    obtain ⟨verdict, hv, rfl⟩ := pass_decided.mp hc
    cases verdict with
    | keep =>
      obtain ⟨rfl, rfl⟩ := hleads
      exact unfolded_held site.midway (inclusion_keeps_iff.mp hv) hrest (ih x)
    | delete => exact hleads.elim
    | put page =>
      have hshown : t₁.shown new = page := hleads.2
      obtain ⟨path, _, hget⟩ := inclusion_put hv
      obtain ⟨child, span, hpage⟩ := (hr.get? hget).2
      have hasked : asked? (t₁.element new) = none := by
        obtain ⟨hbare, _⟩ := Grading.held_of_shown site'.stands.spans site'.stands.nodup
        rw [← asked?_bare, ← hbare, hshown, asked?_bare, hpage]
        rfl
      rw [unfolded_put site hv, ← hpaths, ← hshown]
      exact unfolded_held site'.midway hasked hrest (ih x)
  · intro p front above t s _
    exact ⟨[], by simp, by simp [showns]⟩
  · rintro p front rest held' o above t t₁ t' s s₁ s' res visits later hm hrun _ hg hrest ih
      ⟨mid, hmid, ih'⟩
    obtain ⟨_, hc⟩ := hm.fill hg
    have hshown := shown_filled hm hg hrest
    rw [patch_shown] at hshown
    have hpaths := pathsAbove_grows hc.toGrows fun y hy => (hm.elsewhere (Or.inl hy)).1
    rw [hpaths, showns_rest hm hc] at ih'
    have hplace : ∀ x, x ∈ standing (t.pathsAbove (p :: above)).head? (t'.shown (patch t₁ res).1.id) ↔
        Unfolded r (t.pathsAbove (p :: above)) (t.shown o.id) x := by
      intro x
      rw [← ih x, hshown]
      cases res with
      | none => simp [standing_emptyList]
      | some o' => simp
    refine ⟨(patch t₁ res).1 :: mid, by rw [hmid]; simp, fun x => ?_⟩
    have hrest : _ ↔ ∃ d ∈ showns t rest, Unfolded r (t.pathsAbove (p :: above)) d x := ih' x
    simp only [showns, List.map_cons, List.mem_cons, exists_eq_or_imp, hplace] at hrest ⊢
    exact or_congr_right hrest
  · rintro p front rest held' o above t t₁ t' s s₁ s' visits later hm hrun hl hch hrest ih
      ⟨mid, hmid, ih'⟩
    obtain ⟨_, hc⟩ := hm.drop hch hl
    have hpaths := pathsAbove_grows hc.toGrows fun y hy => (hm.elsewhere (Or.inl hy)).1
    rw [hpaths, showns_rest hm hc] at ih'
    refine ⟨mid, hmid, fun x => ?_⟩
    have hnone : ¬Unfolded r (t.pathsAbove (p :: above)) (t.shown o.id) x := fun h => by
      obtain ⟨o', ho', _⟩ := (ih x).mpr h
      cases ho'
    rw [ih' x]
    simp only [showns, List.map_cons, List.mem_cons, exists_eq_or_imp, hnone, false_or]

end

/-! ## Whole pages -/

section

variable {r : Repository} {t t₁ : Tree} {o : Outline} {main : Document}

theorem Whole.linkPaths (hw : Whole t o) : t.linkPaths = (t.shown o.id).linkPaths := by
  have hsite : t.Site o [] none := hw.loose ▸ hw.stands.site
  exact hsite.linkPaths hw.root

theorem linkPaths_ofDocument (d : Document) : (Tree.ofDocument d).linkPaths = d.linkPaths := by
  obtain ⟨o, hw, hshown⟩ := ofDocument_whole d
  rw [hw.linkPaths, hshown]

/-- What stands in a document once all pages are put in stands there, or in one of these pages. -/
theorem unfolded_iff_includes (hr : r.Keyed) {x : Context × Element Empty} :
    Unfolded r [] main x ↔
      x ∈ standing none main ∨ ∃ page, Includes r main page ∧ x ∈ standing none page := by
  have hstanding : ∀ pages page, Relation.TransGen (PutIn r) ([], main) (pages, page) →
      standing pages.head? page = standing none page := by
    intro pages page h
    obtain ⟨_, _, path, _, absolute, _, _, hget⟩ := Relation.TransGen.tail'_iff.mp h
    obtain ⟨child, span, rfl⟩ := (hr.get? hget).2
    have hpage : pagePath? (element (.node (.wrap (.page (some absolute)) child) span)) =
        some (some absolute) := rfl
    exact standing_of_isPage hpage _ _
  constructor
  · rintro ⟨⟨pages, page⟩, hreach, hx⟩
    rcases Relation.reflTransGen_iff_eq_or_transGen.mp hreach with heq | hreach
    · obtain ⟨rfl, rfl⟩ := Prod.mk.inj heq
      exact Or.inl hx
    · exact Or.inr ⟨page, ⟨pages, hreach⟩, hstanding pages page hreach ▸ hx⟩
  · rintro (hx | ⟨page, ⟨pages, hreach⟩, hx⟩)
    · exact ⟨([], main), .refl, hx⟩
    · exact ⟨(pages, page), hreach.to_reflTransGen, hstanding pages page hreach ▸ hx⟩

/-- A page at the top is shown as the run leaves it. -/
theorem standing_cap {res : Option Outline} {visits : List Visit} (hr : r.Keyed)
    (hpage : (t.element o.id).isPage = true)
    (hrun : Run (inclusion r).callback none o [] t () res t₁ () visits)
    (x : Context × Element Empty) :
    x ∈ standing none (cap t o.id res t₁).2.rootDocument ↔ Unfolded r [] (t.shown o.id) x := by
  have hstays := page_stays hpage (inclusion_keeps_page hpage) hrun
  have hstands := pass_stands hrun
  have hunfolded : _ ↔ Unfolded r [] (t.shown o.id) x := (run_unfolded hr).1 hrun x
  rw [← hunfolded, (whole_after hrun).1.rootDocument, cap_shown t o.id hstands (by simp), paged,
    isPage_shown hstands, if_pos hstays, patch_shown]
  cases res with
  | none => simp [standing_emptyList]
  | some o' => simp [Tree.pathsAbove]

end

/-- For every page at the top and all stored pages, inclusion ends, and the links of the result lead
where those of the page led and those of all pages that were put in, directly or in other ones. Every
element, be it a link, an image, a parent or anything else, still belongs to the page that it was
written in: what stands in the result is, with the pages that it belongs to, what stands in the page
and in those that were put in. -/
theorem inclusion_keeps_where_links_lead (pages : List (String × Document)) (path : Option String)
    (child : Option Document) (span : Option Span) :
    let r := Repository.ofPages pages
    let main : Document := .node (.wrap (.page path) child) span
    ∃ t', (inclusion r).apply r (Tree.ofDocument main) = .ok t' ∧
      (∀ target, target ∈ t'.linkPaths ↔ target ∈ (Tree.ofDocument main).linkPaths ∨
        ∃ page, Includes r main page ∧ target ∈ (Tree.ofDocument page).linkPaths) ∧
      ∀ x, x ∈ standing none t'.rootDocument ↔ x ∈ standing none main ∨
        ∃ page, Includes r main page ∧ x ∈ standing none page := by
  intro r main
  have hr : r.Keyed := Repository.keyed_ofPages pages
  obtain ⟨o, hw, hshown⟩ := ofDocument_whole main
  obtain ⟨γ, hg, hbase⟩ := nesting_graded r hw
  obtain ⟨res, t₁, visits, _, hrun, _⟩ :=
    whole_ends (inclusion_conforms hr) (inclusion_total r) hw hg hbase
  have hpage : ((Tree.ofDocument main).element o.id).isPage = true := by
    rw [← isPage_shown hw.stands, hshown]
    rfl
  have hstanding : ∀ x, x ∈ standing none (cap (Tree.ofDocument main) o.id res t₁).2.rootDocument ↔
      x ∈ standing none main ∨ ∃ page, Includes r main page ∧ x ∈ standing none page := by
    intro x
    rw [standing_cap hr hpage hrun, hshown, unfolded_iff_includes hr]
  refine ⟨_, (apply_of_run r hw hrun).1, fun target => ?_, hstanding⟩
  have hwhole := (whole_after hrun).1
  rw [hwhole.linkPaths, ← hwhole.rootDocument]
  simp only [linkPaths_ofDocument, mem_linkPaths, hstanding]
  constructor
  · rintro ⟨x, hx | ⟨page, hincludes, hx⟩, htarget⟩
    · exact Or.inl ⟨x, hx, htarget⟩
    · exact Or.inr ⟨page, hincludes, x, hx, htarget⟩
  · rintro (⟨x, hx, htarget⟩ | ⟨page, hincludes, x, hx, htarget⟩)
    · exact ⟨x, Or.inl hx, htarget⟩
    · exact ⟨x, Or.inr ⟨page, hincludes, hx⟩, htarget⟩

end WikiHtml.Substitution
