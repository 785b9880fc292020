-- The pages around a node, found by going up. The bounds of the search are never met where the
-- nodes above are listed.
import WikiHtml.Proofs.Tree.Shown
import WikiHtml.Proofs.Tree.Site
import WikiHtml.Substitution.Pass

namespace WikiHtml

namespace Tree

variable {t : Tree} {id : NodeId} {above : List NodeId}

theorem contextWithin_eq_find {steps : Nat} (h : t.Chain id above none)
    (hl : above.length < steps) :
    t.contextWithin false steps id = (id :: above).find? fun x => (t.element x).isPage := by
  obtain ⟨steps, rfl⟩ : ∃ more, steps = more + 1 := ⟨steps - 1, by omega⟩
  induction above generalizing id steps with
  | nil =>
    have hp : t.parent id = none := h
    rw [contextWithin, List.find?_cons, hp]
    cases (t.element id).isPage <;> rfl
  | cons a as ih =>
    obtain ⟨hp, hrest⟩ := h
    rw [List.length_cons] at hl
    obtain ⟨steps, rfl⟩ : ∃ more, steps = more + 1 := ⟨steps - 1, by omega⟩
    rw [contextWithin, List.find?_cons, hp, ← ih hrest steps (by omega)]
    cases (t.element id).isPage <;> rfl

/-- Asked for globally, the page is the last node on the way up, if that is one. -/
theorem contextWithin_global {steps : Nat} {last : NodeId} (h : t.Chain id above none)
    (hl : above.length < steps) (hlast : (id :: above).getLast? = some last) :
    t.contextWithin true steps id = if (t.element last).isPage then some last else none := by
  obtain ⟨steps, rfl⟩ : ∃ more, steps = more + 1 := ⟨steps - 1, by omega⟩
  induction above generalizing id steps with
  | nil =>
    obtain rfl : id = last := Option.some.inj hlast
    rw [contextWithin, show t.parent id = none from h]
    simp
  | cons a as ih =>
    obtain ⟨hp, hrest⟩ := h
    rw [List.length_cons] at hl
    obtain ⟨steps, rfl⟩ : ∃ more, steps = more + 1 := ⟨steps - 1, by omega⟩
    rw [List.getLast?_cons_cons] at hlast
    rw [contextWithin, hp, ← ih hrest hlast steps (by omega)]
    simp

/-- Nodes without repetition above a node of the tree are fewer than there are nodes. -/
theorem Site.length_above {o : Outline} {top : Option NodeId} (h : t.Site o above top) :
    above.length < t.size := by
  have hn : (o.id :: above).Nodup :=
    List.nodup_cons.mpr ⟨fun hm => (h.apart _ hm).2 o.id_mem_ids, h.distinct⟩
  have hs : o.id :: above ⊆ List.range t.size := by
    intro x hx
    rcases List.mem_cons.mp hx with rfl | hx
    · exact List.mem_range.mpr h.stands.spans.inside
    · exact List.mem_range.mpr (h.apart x hx).1
  have hle := (List.Nodup.subperm hn hs).length_le
  rwa [List.length_cons, List.length_range] at hle

theorem Site.contextPage {o : Outline} (h : t.Site o above none) :
    t.contextPage o.id false = (o.id :: above).find? fun x => (t.element x).isPage :=
  contextWithin_eq_find h.chain h.length_above

theorem isPage_of_pagePath {path : String} (h : t.pagePath id = some path) :
    (t.element id).isPage = true := by
  unfold pagePath at h
  split at h
  · rename_i he
    rw [he]
    rfl
  · cases h

end Tree

namespace Substitution

variable {t : Tree} {above : List NodeId} {path : String}

theorem isInsideWithin_of_mem {pages : Nat} {id : NodeId} (hc : t.Chain id above none)
    (hl : above.length < t.size) (hp : above.length < pages)
    (hx : ∃ x ∈ id :: above, t.pagePath x = some path) :
    isInsideWithin t path pages id = true := by
  obtain ⟨pages, rfl⟩ : ∃ more, pages = more + 1 := ⟨pages - 1, by omega⟩
  have hcontext := Tree.contextWithin_eq_find hc hl
  induction above generalizing id pages with
  | nil =>
    obtain ⟨x, hx, hpath⟩ := hx
    obtain rfl := List.mem_singleton.mp hx
    rw [List.find?_cons, Tree.isPage_of_pagePath hpath] at hcontext
    rw [isInsideWithin, Tree.contextPage, hcontext]
    simp [hpath]
  | cons a as ih =>
    obtain ⟨hparent, hrest⟩ := hc
    rw [List.length_cons] at hl hp
    have hl' : as.length < t.size := by omega
    have habove := Tree.contextWithin_eq_find hrest hl'
    obtain ⟨x, hx, hpath⟩ := hx
    rw [List.find?_cons] at hcontext
    rcases hpage : (t.element id).isPage with _ | _
    · rw [hpage] at hcontext
      have hne : x ≠ id := by
        rintro rfl
        rw [Tree.isPage_of_pagePath hpath] at hpage
        cases hpage
      have hup : isInsideWithin t path (pages + 1) id = isInsideWithin t path (pages + 1) a := by
        simp only [isInsideWithin, Tree.contextPage, hcontext, habove]
      rw [hup]
      exact ih hrest hl' ⟨x, (List.mem_cons.mp hx).resolve_left hne, hpath⟩ pages (by omega) habove
    · rw [hpage] at hcontext
      rw [isInsideWithin, Tree.contextPage, hcontext]
      simp only [Bool.or_eq_true, beq_iff_eq]
      rcases List.mem_cons.mp hx with rfl | hx
      · exact Or.inl hpath
      · refine Or.inr ?_
        obtain ⟨pages, rfl⟩ : ∃ more, pages = more + 1 := ⟨pages - 1, by omega⟩
        rw [hparent]
        exact ih hrest hl' ⟨x, hx, hpath⟩ pages (by omega) habove

/-- A page above a node is found to be around it. -/
theorem isInside_of_mem {o : Outline} (hs : t.Site o above none)
    (hx : ∃ x ∈ above, t.pagePath x = some path) : isInside t path o.id = true := by
  obtain ⟨x, hx, hpath⟩ := hx
  exact isInsideWithin_of_mem hs.chain hs.length_above hs.length_above
    ⟨x, List.mem_cons_of_mem _ hx, hpath⟩

end Substitution

end WikiHtml
