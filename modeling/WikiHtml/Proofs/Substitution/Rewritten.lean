-- What the passes leave in the table of nodes. It is what they leave when documents are planted, but for
-- the numbers of the nodes, and to be a proper tree does not depend on these.
import WikiHtml.Proofs.Substitution.ProperTree
import WikiHtml.Proofs.Substitution.SideBySide

namespace WikiHtml.Substitution

open WikiHtml.Tree

variable {f : Equiv.Perm NodeId} {t u : Tree}

/-! ## Proper trees with other numbers -/

theorem held_of_renumbered (h : Renumbered f t u) {x : NodeId} (hx : u.Held (f x)) : t.Held x := by
  obtain ⟨y, hy⟩ := hx
  have hback := h.symm.mem_children hy
  rw [Equiv.symm_apply_apply] at hback
  exact ⟨_, hback⟩

/-- A proper tree is one with other numbers too. -/
theorem Proper.renumbered {top : NodeId} (hp : Proper t top) (h : Renumbered f t u) :
    Proper u (f top) where
  root := by rw [h.root_eq, hp.root, Option.map_some]
  loose := by rw [h.parent_eq, hp.loose, Option.map_none]
  free hheld := hp.free (held_of_renumbered h hheld)
  inside y hy := by
    obtain ⟨x, rfl⟩ := f.surjective y
    have hx := h.symm.reaches hy
    rw [Equiv.symm_apply_apply, Equiv.symm_apply_apply] at hx
    exact h.lt_size_iff.mpr (hp.inside x hx)
  place y hy hne := by
    obtain ⟨x, rfl⟩ := f.surjective y
    have hx := h.symm.reaches hy
    rw [Equiv.symm_apply_apply, Equiv.symm_apply_apply] at hx
    obtain ⟨holder, k, hk, honly, hholder, hparent⟩ := hp.place x hx fun he => hne (he ▸ rfl)
    refine ⟨f holder, k, ?_, fun holder' k' hk' => ?_, h.reaches hholder, ?_⟩
    · rw [h.element_eq, Element.children_map, List.getElem?_map, hk, Option.map_some]
    · obtain ⟨holder', rfl⟩ := f.surjective holder'
      rw [h.element_eq, Element.children_map, List.getElem?_map] at hk'
      obtain ⟨x', hx', he⟩ := Option.map_eq_some_iff.mp hk'
      obtain rfl : x' = x := f.injective he
      obtain ⟨rfl, rfl⟩ := honly holder' k' hx'
      exact ⟨rfl, rfl⟩
    · rw [h.parent_eq, hparent, Option.map_some]
  acyclic y hy hloop := by
    obtain ⟨x, rfl⟩ := f.surjective y
    have hx := h.symm.reaches hy
    rw [Equiv.symm_apply_apply, Equiv.symm_apply_apply] at hx
    have hback : Relation.TransGen (fun holder y => y ∈ (t.element holder).children)
        (f.symm (f x)) (f.symm (f x)) := hloop.lift f.symm fun _ _ => h.symm.mem_children
    rw [Equiv.symm_apply_apply] at hback
    exact hp.acyclic x hx hback

/-! ## What the passes leave -/

theorem ofDocument_inside (d : Document) : (Tree.ofDocument d).Inside := by
  obtain ⟨o, hid, hplanted⟩ := Tree.empty.addDocument_planted d
  have hin := (hplanted.toAdded.mem_ids_iff.mp o.id_mem_ids).2
  rw [hid] at hin
  exact (hplanted.toAdded.inside .empty).setRoot hin

/-- The passes that build nodes in a tree show what the passes that plant documents show, and they fail
for the same cause and have no end where these have none. -/
theorem rewriteAll_shows (names : List PassName) (r : Repository) (settings : Settings)
    (now : Calendar.Moment) (main : Document) :
    (rewriteAll names r settings now (.ofDocument main)).map Tree.rootDocument =
      (applyAll (names.map (·.pass r settings now)) r (.ofDocument main)).map Tree.rootDocument := by
  have hbeside := rewriteAll_beside names r settings now (.refl (.ofDocument main))
    (ofDocument_inside main)
  generalize applyAll (names.map (·.pass r settings now)) r (.ofDocument main) = a at hbeside ⊢
  generalize rewriteAll names r settings now (.ofDocument main) = b at hbeside ⊢
  cases hbeside with
  | error cause => rfl
  | ok hsame =>
    obtain ⟨g, hg, _⟩ := hsame
    exact congrArg Except.ok hg.rootDocument_eq

/-- The four passes, in any order and each as often as one likes, leave a proper tree if they end.
Its top is a page, unless no pass ran and there was no page at the top of the document. -/
theorem passes_leave_a_proper_tree (main : Document) (r : Repository) (settings : Settings)
    (now : Calendar.Moment) (sequence : List PassName) {t : Tree}
    (h : rewriteAll sequence r settings now (Tree.ofDocument main) = .ok t) :
    ∃ top, Proper t top ∧
      (t.element top).isPage = (main.element.isPage || !sequence.isEmpty) := by
  obtain ⟨o, hmain, hpage⟩ := ofDocument_unmixed main
  have hbeside := rewriteAll_beside sequence r settings now (.refl (.ofDocument main))
    (ofDocument_inside main)
  rw [h] at hbeside
  generalize hall : applyAll (sequence.map (·.pass r settings now)) r (.ofDocument main) = a
    at hbeside
  cases hbeside with
  | ok hsame =>
    obtain ⟨g, hg, _⟩ := hsame
    obtain ⟨o', ht, hpage'⟩ := applyAll_unmixed hmain hall
    refine ⟨g o'.id, ht.proper.renumbered hg, ?_⟩
    rw [hg.element_eq, Element.isPage_map, hpage', hpage, List.isEmpty_map]

theorem a_table_of_contents_holds_a_copy_of_the_heading :
    ∃ t, rewriteAll [.placeholders] .empty .standard noon (Tree.ofDocument pageWithHeading) = .ok t ∧
      t.rootDocument = pageWithContents.rootDocument ∧
      ∃ top, Proper t top ∧ (t.element top).isPage = true := by
  have hpage : page (placeholders .empty .standard noon).rule 12 (Tree.ofDocument pageWithHeading)
      () = .ok (pageWithContents, ()) := rfl
  have hpass : (placeholders .empty .standard noon).apply .empty (Tree.ofDocument pageWithHeading) =
      .ok pageWithContents := by
    rw [apply_eq_page .empty (by rw [hpage]; nofun), hpage]
    rfl
  have hshows := rewriteAll_shows [.placeholders] .empty .standard noon pageWithHeading
  have hall : applyAll [placeholders .empty .standard noon] .empty
      (Tree.ofDocument pageWithHeading) = .ok pageWithContents := by
    rw [applyAll, List.foldlM_cons, hpass]
    rfl
  rw [show [PassName.placeholders].map (·.pass .empty .standard noon) =
    [placeholders .empty .standard noon] from rfl, hall] at hshows
  rcases hrun : rewriteAll [.placeholders] .empty .standard noon (Tree.ofDocument pageWithHeading)
    with cause | t
  · rw [hrun] at hshows
    cases hshows
  · rw [hrun] at hshows
    obtain ⟨top, hproper, htop⟩ := passes_leave_a_proper_tree pageWithHeading .empty .standard noon
      [.placeholders] hrun
    exact ⟨t, rfl, Except.ok.inj hshows, top, hproper, htop⟩

end WikiHtml.Substitution
