-- Inclusion ends, whatever circles the stored pages go in: the class of a node are the paths of the
-- pages around it, and a page is only put in where its path is none of them.
import Mathlib.Data.Finset.Card
import WikiHtml.Proofs.Repository
import WikiHtml.Proofs.Substitution.GradedRun
import WikiHtml.Proofs.Tree.Context

namespace WikiHtml.Substitution

/-! ## The pages around a node -/

/-- The path of a page. -/
def pathOf? : Element Empty → Option String
  | .wrap (.page path) _ => path
  | _ => none

theorem pagePath_eq (t : Tree) (id : NodeId) : t.pagePath id = pathOf? (t.element id).bare := by
  unfold Tree.pagePath
  rcases t.element id with members | ⟨w, _ | child⟩ | ⟨params, rows⟩ | l
  · rfl
  · cases w <;> rfl
  · cases w <;> rfl
  · rfl
  · rfl

/-- The paths of the pages around what an element holds, where those around it are given. -/
def pathsWithin (e : Element Empty) (paths : List String) : List String :=
  (pathOf? e).toList ++ paths

theorem mem_pathsWithin {e : Element Empty} {paths : List String} {path : String} :
    path ∈ pathsWithin e paths ↔ pathOf? e = some path ∨ path ∈ paths := by
  rw [pathsWithin, List.mem_append, Option.mem_toList]

/-- The class of a node are the paths of the pages around it, and its level is the number of stored
pages that are not around it. -/
def nesting (r : Repository) : Grading (List String) where
  fits _ _ _ := True
  holds e outer inner := inner = pathsWithin e outer
  level paths := (r.paths.toFinset \ paths.toFinset).card
  level_le := by
    rintro e outer inner rfl
    refine Finset.card_le_card (Finset.sdiff_subset_sdiff (Finset.Subset.refl _) ?_)
    intro path hp
    rw [List.mem_toFinset] at hp ⊢
    exact mem_pathsWithin.mpr (Or.inr hp)
  empty _ := trivial

theorem nesting_of (r : Repository) (paths : List String) (d : Document) :
    (nesting r).Of paths d := by
  induction d using Document.induct generalizing paths with
  | node e span ih => exact .intro trivial fun d hd => ⟨_, rfl, ih d hd _⟩

/-- No pages are around the top of a whole tree. -/
theorem nesting_graded (r : Repository) {t : Tree} {o : Outline} (hw : Whole t o) :
    ∃ γ, (nesting r).Graded γ t ∧ γ o.id = some [] := by
  obtain ⟨γ, hg, _, _, hbase, rfl⟩ :=
    Grading.gradable_of_shown hw.stands.spans hw.stands.nodup (nesting_of r [] _)
  exact ⟨γ, hg, hbase⟩

theorem level_lt {r : Repository} {path : String} {paths : List String} (hm : path ∈ r.paths)
    (hn : path ∉ paths) : (nesting r).level (path :: paths) < (nesting r).level paths := by
  show (r.paths.toFinset \ (path :: paths).toFinset).card <
    (r.paths.toFinset \ paths.toFinset).card
  refine Finset.card_lt_card ⟨fun x hx => ?_, fun hsub => ?_⟩
  · simp only [Finset.mem_sdiff, List.mem_toFinset, List.mem_cons, not_or] at hx ⊢
    exact ⟨hx.1, hx.2.2⟩
  · have hx := hsub (Finset.mem_sdiff.mpr ⟨List.mem_toFinset.mpr hm, by simpa using hn⟩)
    simp at hx

section

variable {r : Repository} {t : Tree} {γ : NodeId → Option (List String)}

/-- A path in the class of a node is that of a page above it. -/
theorem page_of_lineage {paths : List String} {above : List NodeId} {path : String}
    (h : Lineage (nesting r) γ t [] paths above) (hm : path ∈ paths) :
    ∃ x ∈ above, t.pagePath x = some path := by
  induction above generalizing paths with
  | nil =>
    obtain rfl : paths = [] := h
    simp at hm
  | cons a as ih =>
    obtain ⟨outer, _, hh, hrest⟩ := h
    obtain rfl : paths = pathsWithin (t.element a).bare outer := hh
    rcases mem_pathsWithin.mp hm with hp | hp
    · exact ⟨a, by simp, (pagePath_eq t a).trans hp⟩
    · obtain ⟨x, hx, hpath⟩ := ih hrest hp
      exact ⟨x, List.mem_cons_of_mem a hx, hpath⟩

/-- The path of a page is in the class of every node within it. -/
theorem mem_class_of_reaches (hg : (nesting r).Graded γ t) {x y : NodeId} {paths : List String}
    {path : String} (hy : γ y = some paths) (hp : t.pagePath y = some path) (hr : t.Reaches y x)
    (hne : y ≠ x) : ∃ inner, γ x = some inner ∧ path ∈ inner := by
  have hdown : ∀ {a b : NodeId} {outer : List String}, t.Reaches a b → γ a = some outer →
      path ∈ outer → ∃ inner, γ b = some inner ∧ path ∈ inner := by
    intro a b outer hab ha hm
    induction hab with
    | refl => exact ⟨outer, ha, hm⟩
    | tail _ hc ih =>
      obtain ⟨mid, hmid, hmem⟩ := ih
      obtain ⟨inner, hinner, rfl⟩ := hg.holds hmid hc
      exact ⟨_, hinner, mem_pathsWithin.mpr (Or.inr hmem)⟩
  rcases hr.cases_head with rfl | ⟨c, hc, hrest⟩
  · exact absurd rfl hne
  · obtain ⟨inner, hinner, rfl⟩ := hg.holds hy hc
    exact hdown hrest hinner (mem_pathsWithin.mpr (Or.inl ((pagePath_eq t y).symm.trans hp)))

end

/-! ## Inclusion goes down -/

/-- A stored page is put in where its path is none of those of the pages around. -/
def PutsPage (r : Repository) (paths : List String) (d : Document) : Prop :=
  ∃ path, path ∈ r.paths ∧ path ∉ paths ∧ Repository.IsPageOf path d

theorem inclusion_put {r : Repository} {t : Tree} {id : NodeId} {d : Document}
    (h : inclusion r t id = .ok (.put d)) :
    ∃ path, isInside t path id = false ∧ r.get? path = some d := by
  unfold inclusion at h
  split at h
  · split at h
    · cases h
    · rename_i absolute _
      split at h
      · cases h
      · rename_i hinside
        refine ⟨absolute, Bool.eq_false_iff.mpr hinside, ?_⟩
        rcases hget : r.get? absolute with _ | found
        · rw [hget] at h
          cases h
        · rw [hget] at h
          cases h
          rfl
  · cases h

theorem inclusion_total (r : Repository) (t : Tree) (id : NodeId) :
    ∃ v, inclusion r t id = .ok v := by
  unfold inclusion
  split
  · split
    · exact ⟨_, rfl⟩
    · split
      · exact ⟨_, rfl⟩
      · exact ⟨_, rfl⟩
  · exact ⟨_, rfl⟩

theorem inclusion_conforms {r : Repository} (hr : r.Keyed) :
    (inclusion r).Conforms (nesting r) [] (PutsPage r) where
  put {γ t o above paths d} hs _ _ hl hd := by
    obtain ⟨path, hinside, hget⟩ := inclusion_put hd
    obtain ⟨hstored, hpage⟩ := hr.get? hget
    refine ⟨path, hstored, fun hm => ?_, hpage⟩
    rw [isInside_of_mem hs (page_of_lineage hl hm)] at hinside
    cases hinside
  below {paths d} h := by
    obtain ⟨path, hstored, hn, child, span, rfl⟩ := h
    refine ⟨trivial, fun c hc => ⟨path :: paths, ?_, level_lt hstored hn, nesting_of r _ c⟩⟩
    rcases child with _ | child <;> rfl

/-! ## What is left -/

theorem inclusion_keeps_page {r : Repository} {t : Tree} {id : NodeId}
    (h : (t.element id).isPage = true) : inclusion r t id = .ok .keep := by
  unfold inclusion
  split
  · rename_i he
    rw [he] at h
    cases h
  · rfl

theorem isPage_bare {α : Type} (e : Element α) : e.bare.isPage = e.isPage :=
  Element.isPage_refill e []

/-- A page at the top stays there. -/
theorem page_stays {pass : Pass} {t t' : Tree} {o : Outline} {above : List NodeId} {s s' : Unit}
    {res : Option Outline} {visits : List Visit} (hpage : (t.element o.id).isPage = true)
    (hkeep : pass t o.id = .ok .keep)
    (hrun : Run pass.callback none o above t s res t' s' visits) :
    ((patch t' res).2.element (patch t' res).1.id).isPage = true := by
  cases hrun with
  | list site isList rest =>
    rw [Outline.id_node] at hpage
    cases he : t.element _ <;> rw [he] at hpage isList <;> contradiction
  | gone site isList decided taken =>
    obtain ⟨verdict, hv, rfl⟩ := pass_decided.mp decided
    rw [hkeep] at hv
    cases hv
    simp [Verdict.move, Move.take, Move.run] at taken
  | stays site isList decided taken site' regrown root leads rest =>
    obtain ⟨verdict, hv, rfl⟩ := pass_decided.mp decided
    rw [hkeep] at hv
    cases hv
    obtain ⟨rfl, rfl⟩ := leads
    rw [Outline.id_node] at hpage
    have hbare := (run_changes.2 rest).1.toGrows.bare_eq site.stands.spans.inside
    rw [Outline.id_node] at hbare
    simp only [patch, Outline.id_node]
    rw [← isPage_bare, hbare, isPage_bare]
    exact hpage

/-- A node was put in as the top of a page. -/
def Included (visits : List Visit) (x : NodeId) : Prop :=
  ∃ v ∈ visits, ∃ d, v.move = .replace d ∧ (v.tree.addDocument d).1 = x

theorem Included.mem {c : Callback Unit Event.Fault} {top : Option NodeId} {o : Outline}
    {above : List NodeId} {t t' : Tree} {s s' : Unit} {res : Option Outline} {visits : List Visit}
    {x : NodeId} (h : Included visits x) (hrun : Run c top o above t s res t' s' visits) :
    ∃ o', res = some o' ∧ x ∈ o'.ids := by
  obtain ⟨v, hv, d, hd, rfl⟩ := h
  exact run_answers.1 hrun v hv _ (by rw [hd]; rfl)

theorem length_of_pairwise_ne {f : NodeId → Option String} {nodes : List NodeId}
    {paths : List String} (hf : ∀ x ∈ nodes, ∃ path ∈ paths, f x = some path)
    (hne : nodes.Pairwise fun x y => f x ≠ f y) : nodes.length ≤ paths.length := by
  have hn : (nodes.map f).Nodup := List.pairwise_map.mpr hne
  have hs : nodes.map f ⊆ paths.map some := by
    intro y hy
    obtain ⟨x, hx, rfl⟩ := List.mem_map.mp hy
    obtain ⟨path, hpath, he⟩ := hf x hx
    exact List.mem_map.mpr ⟨path, hpath, he.symm⟩
  simpa using (List.Nodup.subperm hn hs).length_le

section

variable {r : Repository} {t t₁ : Tree} {o : Outline} {res : Option Outline} {visits : List Visit}
  {γ : NodeId → Option (List String)}

/-- No page around one that was put in has its path. -/
theorem page_outside_ne (hrun : Run (inclusion r).callback none o [] t () res t₁ () visits)
    (hg : (nesting r).Graded γ t₁) (hres : ∀ o', res = some o' → γ o'.id = some [])
    (hv : ∀ v ∈ visits, Answered (PutsPage r) γ t₁ v) {x : NodeId} (hx : Included visits x) :
    ∃ path ∈ r.paths, (cap t o.id res t₁).2.pagePath x = some path ∧
      ∀ y ∈ (cap t o.id res t₁).1.ids, (cap t o.id res t₁).2.Reaches y x → y ≠ x →
        (cap t o.id res t₁).2.pagePath y ≠ some path := by
  obtain ⟨o', rfl, hxo⟩ := hx.mem hrun
  obtain ⟨v, hvm, d, hd, rfl⟩ := hx
  obtain ⟨paths, hclass, ⟨path, hstored, hn, hpage⟩, hbare⟩ := hv v hvm d hd
  have hs := (pass_stands hrun).spans
  have hold : ∀ y : Nat, y < t₁.size → (cap t o.id (some o') t₁).2.element y = t₁.element y :=
    fun y hy => element_cap t o.id hy
  have hlt : (v.tree.addDocument d).1 < t₁.size := hs.lt_size _ hxo
  have hg' : (nesting r).Graded γ (cap t o.id (some o') t₁).2 := by
    refine hg.congr ?_ fun y i hy => ⟨hold y (hg.inside hy), span_cap t o.id (hg.inside hy)⟩
    exact (size_le_cap t o.id : (patch t₁ (some o')).2.size ≤ _)
  refine ⟨path, hstored, ?_, fun y hy hyx hne hpath => ?_⟩
  · obtain ⟨child, span, rfl⟩ := hpage
    rw [pagePath_eq, hold _ hlt, hbare]
    rcases child with _ | child <;> rfl
  · rcases (mem_cap t o.id).mp hy with hy | ⟨htop, rfl⟩
    · obtain ⟨outer, houter⟩ := hg.reaches (hres o' rfl) (hs.reaches hy)
      obtain ⟨inner, hinner, hm⟩ := mem_class_of_reaches hg' houter hpath hyx hne
      obtain rfl := Option.some.inj (hclass.symm.trans hinner)
      exact hn hm
    · have hpath' : t.pagePath o.id = some path := by
        unfold Tree.pagePath at hpath
        rwa [element_cap_new t o.id htop] at hpath
      have hispage := Tree.isPage_of_pagePath hpath'
      rw [page_stays hispage (inclusion_keeps_page hispage) hrun] at htop
      cases htop

end

/-- Inclusion ends for every repository and every document. A page that it puts in is below the top
of the result, it has the path of a stored page, and no page around it has this path; so there are
no more such pages one inside the other than there are stored pages. -/
theorem inclusion_ends_and_puts_no_page_into_itself (pages : List (String × Document))
    (main : Document) :
    ∃ t' top fuel visits,
      (inclusion (.ofPages pages)).apply (.ofPages pages) (Tree.ofDocument main) = .ok t' ∧
      page (inclusion (.ofPages pages)).callback.traced.rule fuel (Tree.ofDocument main) ((), []) =
        .ok (t', (), visits) ∧
      t'.root = some top ∧
      (∀ x, Included visits x → t'.Reaches top x ∧ ∃ path ∈ (Repository.ofPages pages).paths,
        t'.pagePath x = some path ∧
        ∀ y, t'.Reaches top y → t'.Reaches y x → y ≠ x → t'.pagePath y ≠ some path) ∧
      ∀ nested : List NodeId, (∀ x ∈ nested, Included visits x) →
        nested.Pairwise (fun outer inner => outer ≠ inner ∧ t'.Reaches outer inner) →
        nested.length ≤ (Repository.ofPages pages).size := by
  have hkeyed := Repository.keyed_ofPages pages
  generalize Repository.ofPages pages = r at hkeyed ⊢
  obtain ⟨o, hw, _⟩ := ofDocument_whole main
  obtain ⟨γ, hg, hbase⟩ := nesting_graded r hw
  obtain ⟨res, t₁, visits, γ₁, hrun, hg₁, hres, hv⟩ :=
    whole_ends (inclusion_conforms hkeyed) (inclusion_total r) hw hg hbase
  obtain ⟨happly, fuel, htraced⟩ := apply_of_run r hw hrun
  obtain ⟨hwhole, _⟩ := whole_after hrun
  have hin : ∀ x, Included visits x → x ∈ (cap (Tree.ofDocument main) o.id res t₁).1.ids := by
    intro x hx
    obtain ⟨o', rfl, hxo⟩ := hx.mem hrun
    exact (mem_cap _ _).mpr (Or.inl hxo)
  refine ⟨_, _, fuel, visits, happly, htraced, hwhole.root,
    fun x hx => ⟨hwhole.stands.spans.reaches (hin x hx), ?_⟩, fun nested hall hpairs => ?_⟩
  · obtain ⟨path, hstored, hpath, hne⟩ := page_outside_ne hrun hg₁ hres hv hx
    exact ⟨path, hstored, hpath, fun y hy => hne y (hwhole.stands.spans.mem_of_reaches hy)⟩
  · have hpaths : ∀ x ∈ nested, ∃ path ∈ r.paths,
        (cap (Tree.ofDocument main) o.id res t₁).2.pagePath x = some path := by
      intro x hx
      obtain ⟨path, hstored, hpath, _⟩ := page_outside_ne hrun hg₁ hres hv (hall x hx)
      exact ⟨path, hstored, hpath⟩
    have hlen := length_of_pairwise_ne hpaths (hpairs.imp_of_mem fun {x y} hx hy h => ?_)
    · rwa [Repository.paths, List.length_map] at hlen
    · obtain ⟨path, _, hpath, hne⟩ := page_outside_ne hrun hg₁ hres hv (hall y hy)
      rw [hpath]
      exact hne x (hin x (hall x hx)) h.2 h.1

end WikiHtml.Substitution
