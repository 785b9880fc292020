-- Links in a tree. Their targets are found by going up from each link to the page around it, and
-- they are those that a search finds that goes down through the document of the tree.
import WikiHtml.Proofs.Document.Standing
import WikiHtml.Proofs.Tree.Context

namespace WikiHtml

namespace Tree

/-! ## Targets of links, found by going up -/

/-- Where the link to a page leads that a node is. -/
def linkTargetAt? (t : Tree) (id : NodeId) : Option String :=
  (Document.linkPath? (t.element id)).bind fun path => t.absolutePath path (t.contextPage id false)

/-- The targets of the links to pages below the root; a link without a path has the page that it
belongs to. -/
def linkPaths (t : Tree) : List String :=
  let links := t.root.toList.flatMap fun root =>
    t.nodesMatching root (fun e => (Document.linkPath? e).isSome) true
  PageOrder.ascending (links.filterMap t.linkTargetAt?)

section

variable {t : Tree} {o : Outline} {above : List NodeId}

/-- The nodes that match are found in the order of the outline. -/
theorem matchesWithin_of_spans (p : Element NodeId → Bool) (h : t.Spans o) {depth : Nat}
    (hd : o.ids.length ≤ depth) :
    t.matchesWithin p true depth o.id = o.ids.filter fun x => p (t.element x) := by
  induction o using Outline.induct generalizing depth with
  | node id held ih =>
    rw [Outline.ids_node, List.length_cons] at hd
    obtain ⟨depth, rfl⟩ : ∃ n, depth = n + 1 := ⟨depth - 1, by omega⟩
    have hheld : held.flatMap (fun c => t.matchesWithin p true depth c.id) =
        held.flatMap fun c => c.ids.filter fun x => p (t.element x) := by
      refine List.flatMap_congr fun c hc => ih c hc (h.held c hc) ?_
      have := Outline.length_ids_le hc
      omega
    rw [Outline.id_node, matchesWithin, h.children, List.flatMap_map, hheld, Outline.ids_node,
      List.filter_cons, List.filter_flatMap]
    rfl

theorem nodesMatching_of_spans (p : Element NodeId → Bool) (h : t.Spans o) (hn : o.ids.Nodup) :
    t.nodesMatching o.id p true = o.ids.filter fun x => p (t.element x) :=
  matchesWithin_of_spans p h (length_ids_le h hn)

/-! ## The pages above a node -/

/-- The paths of the pages among the nodes above a node, the innermost first. -/
def pathsAbove (t : Tree) (above : List NodeId) : List (Option String) :=
  above.filterMap fun x => Document.pagePath? (t.element x)

theorem pathsAbove_cons (t : Tree) (x : NodeId) (above : List NodeId) :
    t.pathsAbove (x :: above) = Document.around (t.pathsAbove above) (t.element x) := by
  rw [pathsAbove, List.filterMap_cons, Document.around]
  cases Document.pagePath? (t.element x) <;> rfl

theorem pagePath?_eq (t : Tree) (x : NodeId) :
    Document.pagePath? (t.element x) =
      if (t.element x).isPage then some (t.pagePath x) else none := by
  unfold pagePath
  rcases t.element x with members | ⟨w, child⟩ | ⟨params, rows⟩ | l
  · rfl
  · cases w <;> rfl
  · rfl
  · rfl

/-- The first page on the way up is the one whose path comes first. -/
theorem head?_pathsAbove (t : Tree) (above : List NodeId) :
    (t.pathsAbove above).head? = (above.find? fun x => (t.element x).isPage).map t.pagePath := by
  induction above with
  | nil => rfl
  | cons x rest ih =>
    rw [pathsAbove, List.filterMap_cons, pagePath?_eq, List.find?_cons]
    cases (t.element x).isPage
    · exact ih
    · rfl

theorem Site.absolutePath (h : t.Site o above none) (path : Option String) :
    t.absolutePath path (t.contextPage o.id false) =
      Document.absolutePath path (t.pathsAbove (o.id :: above)).head? := by
  rw [Tree.absolutePath, h.contextPage, head?_pathsAbove]

theorem Site.held {id : NodeId} {held : List Outline} {c : Outline}
    {top : Option NodeId} (h : t.Site (.node id held) above top) (hc : c ∈ held) :
    t.Site c (id :: above) top := by
  have hbelow : ∀ x ∈ c.ids, x ∈ held.flatMap Outline.ids := fun x hx =>
    List.mem_flatMap.mpr ⟨c, hc, hx⟩
  have hnodup := h.stands.nodup
  rw [Outline.ids_node, List.nodup_cons] at hnodup
  refine ⟨h.stands.held hc, ⟨by simpa using h.stands.parent_held hc, h.chain⟩, ?_, ?_⟩
  · refine List.nodup_cons.mpr ⟨fun hm => (h.apart id hm).2 ?_, h.distinct⟩
    simp [Outline.ids_node]
  · intro x hx
    rcases List.mem_cons.mp hx with rfl | hx
    · exact ⟨h.stands.spans.inside, fun hm => hnodup.1 (hbelow x hm)⟩
    · refine ⟨(h.apart x hx).1, fun hm => (h.apart x hx).2 ?_⟩
      rw [Outline.ids_node]
      exact List.mem_cons_of_mem id (hbelow x hm)

/-! ## The same targets, found by going down -/

/-- The page around what a node shows is the first one from the node on the way up. -/
theorem contextOf_shown {id : NodeId} {d : Document} (h : d.element.bare = (t.element id).bare) :
    Document.contextOf (t.pathsAbove above).head? d.element = (t.pathsAbove (id :: above)).head? := by
  rw [← Document.head?_around, pathsAbove_cons, Document.around, Document.around,
    ← Document.pagePath?_bare, h, Document.pagePath?_bare]

theorem Site.linkTargets (h : t.Site o above none) :
    o.ids.filterMap t.linkTargetAt? = (t.shown o.id).search (fun outer d =>
      let context := Document.contextOf outer d.element
      ((Document.linkTarget? context d.element).toList, some context))
      (t.pathsAbove above).head? := by
  induction o using Outline.induct generalizing above with
  | node id held ih =>
    obtain ⟨hbare, hchildren⟩ := Grading.held_of_shown h.stands.spans h.stands.nodup
    have hcontext : Document.contextOf (t.pathsAbove above).head? (t.shown id).element =
        (t.pathsAbove (id :: above)).head? := contextOf_shown hbare
    have hown : (t.linkTargetAt? id).toList =
        (Document.linkTarget? (t.pathsAbove (id :: above)).head? (t.shown id).element).toList := by
      have hpath : ∀ path, t.absolutePath path (t.contextPage id false) = _ := h.absolutePath
      rw [linkTargetAt?, Document.linkTarget?, ← Document.linkPath?_bare (t.shown id).element,
        hbare, Document.linkPath?_bare]
      simp only [hpath, Outline.id_node]
    have hheld : held.flatMap (fun c => c.ids.filterMap t.linkTargetAt?) = _ :=
      List.flatMap_congr fun c hc => ih c hc (h.held hc)
    rw [Outline.ids_node, ← List.singleton_append, List.filterMap_append, List.filterMap_flatMap,
      hheld, Outline.id_node, List.filterMap_eq_flatMap_toList, List.flatMap_singleton, hown]
    generalize t.shown id = d at hbare hchildren hcontext ⊢
    cases d with
    | node e span =>
      dsimp only [Document.element] at hchildren hcontext
      rw [Document.search_node]
      simp only [Document.element, hcontext, hchildren, Option.toList_some, List.flatMap_singleton,
        List.flatMap_map]

/-- Found from the root down or from the links up, the targets are the same. -/
theorem Site.linkPaths (h : t.Site o [] none) (hroot : t.root = some o.id) :
    t.linkPaths = (t.shown o.id).linkPaths := by
  have hfilter : ∀ x ∈ o.ids, (if (Document.linkPath? (t.element x)).isSome = true then
      t.linkTargetAt? x else none) = t.linkTargetAt? x := by
    intro x _
    unfold linkTargetAt?
    cases Document.linkPath? (t.element x) <;> rfl
  rw [Tree.linkPaths, hroot, Option.toList_some, List.flatMap_singleton,
    nodesMatching_of_spans _ h.stands.spans h.stands.nodup, List.filterMap_filter,
    List.filterMap_congr hfilter, h.linkTargets, Document.linkPaths_eq]
  rfl

end

end Tree

end WikiHtml
