-- Trees that were stored as pages. A page at the top takes the path; it is a new one unless the root
-- had the path already, and it holds what the old root held, or the old root. Either way what is
-- below it is in good order, so going up from any node there comes to it.
import Mathlib.Data.List.Induction
import WikiHtml.Proofs.Repository
import WikiHtml.Proofs.Tree.Decoding
import WikiHtml.Proofs.Tree.Links
import WikiHtml.Tree.Storage

namespace WikiHtml

/-! ## Stores that were filled tree by tree -/

namespace TreeStore

/-- The store that trees were put into, one after another. -/
def ofPages (pages : List (String × Tree)) : TreeStore :=
  pages.foldl (fun s page => s.insert page.1 page.2) .empty

theorem get?_insert (s : TreeStore) (path key : String) (t : Tree) :
    (s.insert path t).get? key = if path = key then some (t.storedAs path) else s.get? key := by
  simp only [get?, insert, Std.TreeMap.getElem?_insert, Std.LawfulEqCmp.compare_eq_iff_eq]

theorem ofPages_concat (pages : List (String × Tree)) (path : String) (t : Tree) :
    ofPages (pages ++ [(path, t)]) = (ofPages pages).insert path t := by
  simp only [ofPages, List.foldl_append, List.foldl_cons, List.foldl_nil]

/-- What was stored last under a path is found there. -/
theorem get?_ofPages (pages : List (String × Tree)) (path : String) :
    (ofPages pages).get? path = (pages.reverse.lookup path).map fun t => t.storedAs path := by
  induction pages using List.reverseRecOn with
  | nil => simp [ofPages, empty, get?]
  | append_singleton pages last ih =>
    obtain ⟨key, t⟩ := last
    rw [ofPages_concat, get?_insert, ih, List.reverse_append, List.reverse_singleton,
      List.singleton_append, List.lookup_cons]
    by_cases hkey : key = path
    · simp [hkey]
    · rw [if_neg hkey, beq_false_of_ne (Ne.symm hkey)]

theorem mem_paths {s : TreeStore} {path : String} : path ∈ s.paths ↔ (s.get? path).isSome := by
  rw [paths, Std.TreeMap.mem_keys, get?, Std.TreeMap.isSome_getElem?_iff_mem]

end TreeStore

namespace Tree

/-! ## The page at the top -/

section

variable {t : Tree} {o : Outline} {root : NodeId}

theorem eq_page_of_isPage {e : Element NodeId} (h : e.isPage = true) :
    ∃ path child, e = .wrap (.page path) child := by
  unfold Element.isPage at h
  split at h
  · exact ⟨_, _, rfl⟩
  · cases h

theorem content?_of_page {old : Option String} {child : Option NodeId}
    (h : t.element root = .wrap (.page old) child) : t.content? root = child := by
  rw [content?, h]

theorem content?_of_not_page (h : (t.element root).isPage = false) :
    t.content? root = some root := by
  unfold content?
  split
  · rename_i hpage
    rw [hpage] at h
    cases h
  · rfl

/-- What the new page holds stands in good order, and is the root or held by it. -/
theorem Stands.content (h : t.Stands [] o) : ∃ os : List Outline,
    (t.content? o.id).toList = os.map Outline.id ∧ (os.flatMap Outline.ids).Nodup ∧
      ∀ c ∈ os, t.Stands [] c := by
  obtain ⟨root, held⟩ := o
  rw [Outline.id_node]
  rcases hpage : (t.element root).isPage with _ | _
  · refine ⟨[.node root held], ?_, ?_, by simpa using h⟩
    · rw [content?_of_not_page hpage]
      rfl
    · rw [List.flatMap_singleton]
      exact h.nodup
  · obtain ⟨path, child, he⟩ := eq_page_of_isPage hpage
    have hheld := h.nodup
    rw [Outline.ids_node, List.nodup_cons] at hheld
    refine ⟨held, ?_, hheld.2, fun c hc => h.held hc⟩
    rw [content?_of_page he, ← h.spans.children, he]
    rfl

/-- A page at the top of a tree, which was put there for another tree with its root: it has the path
and no parent, it took over the span of the root and what the content is, and below it all is in
good order. The nodes that were there hold what they held. -/
structure Heads (t stored : Tree) (path : String) (root top : NodeId) : Prop where
  root_eq : stored.root = some top
  parentless : stored.parent top = none
  page : stored.element top = .wrap (.page (some path)) (t.content? root)
  span_eq : stored.span top = t.span root
  wellFormed : stored.WellFormed top
  size_le : t.size ≤ stored.size
  kept : ∀ x < t.size, stored.element x = t.element x ∧ stored.span x = t.span x

theorem storedAs_heads (h : t.Stands [] o) (hroot : t.root = some o.id) (hloose : t.parent o.id = none)
    (path : String) : ∃ top, t.Heads (t.storedAs path) path o.id top := by
  rw [storedAs, hroot]
  dsimp only
  split
  · rename_i hpath
    refine ⟨o.id, hroot, hloose, ?_, rfl, ⟨o, rfl, h⟩, Nat.le_refl _, fun x _ => ⟨rfl, rfl⟩⟩
    obtain ⟨old, child, he⟩ := eq_page_of_isPage (isPage_of_pagePath hpath)
    rw [pagePath, he] at hpath
    rw [content?_of_page he, he, show old = some path from hpath]
  -- The new page is the last node. An old page at the root still holds what it held, but nothing
  -- comes to it from the new one.
  · obtain ⟨os, hids, hnodup, hos⟩ := h.content
    have hadded := Stands.add (e := .wrap (.page (some path)) (t.content? o.id)) (t.span o.id) hids
      hos hnodup (by simp)
    have hlt : ∀ x < t.size, x ≠ t.size := fun x hx => Nat.ne_of_lt hx
    refine ⟨t.size, rfl, ?_, ?_, ?_, ⟨_, rfl, hadded.setRoot⟩, by simp, fun x hx => ⟨?_, ?_⟩⟩
    · rw [add_fst, parent_setRoot _ _ (by simp), if_pos rfl]
    · rw [element_setRoot, element_add, if_pos rfl]
    · rw [span_setRoot, span_add, if_pos rfl]
    · rw [element_setRoot, element_add, if_neg (hlt x hx)]
    · rw [span_setRoot, span_add, if_neg (hlt x hx)]

end

/-! ## What is stored -/

section

variable {t stored : Tree} {o : Outline} {path : String} {root top : NodeId}

/-- What the page holds is written down as before. -/
theorem Heads.document?_eq (h : t.Heads stored path o.id top) (hs : t.Stands [] o) {c : NodeId}
    (hc : t.content? o.id = some c) :
    t.document? c = some (t.shown c) ∧ stored.document? c = some (t.shown c) := by
  obtain ⟨os, hids, _, hos⟩ := hs.content
  rw [hc, Option.toList_some] at hids
  obtain ⟨content, rfl, rfl⟩ := List.map_eq_singleton_iff.mp hids.symm
  have hcontent := hos content (by simp)
  have hkept : ∀ x ∈ content.ids, stored.element x = t.element x ∧ stored.span x = t.span x :=
    fun x hx => h.kept x (hcontent.spans.lt_size x hx)
  have hspans := hcontent.spans.congr h.size_le fun x hx => (hkept x hx).1
  have hsame : stored.along content = t.along content :=
    along_congr (fun x hx => (hkept x hx).1) fun x hx => (hkept x hx).2
  rw [shown_eq_along hcontent.spans hcontent.nodup]
  refine ⟨document?_eq_along hcontent.spans hcontent.nodup, ?_⟩
  rw [document?_eq_along hspans hcontent.nodup, hsame]

/-- Below the page, what is held has its holder as parent. -/
theorem WellFormed.parent_eq (h : t.WellFormed top) {p x : NodeId} (hp : t.Reaches top p)
    (hx : x ∈ (t.element p).children) : t.parent x = some p := by
  obtain ⟨o, rfl, hs⟩ := h
  have hedge : (p, x) ∈ o.edges := hs.spans.edge_iff.mpr ⟨hs.spans.mem_of_reaches hp, hx⟩
  simpa using hs.linked _ hedge

/-- A node belongs to a page that is nested in the page. -/
def InNestedPage (t : Tree) (page x : NodeId) : Prop :=
  ∃ nested ≠ page, t.Reaches page nested ∧ (t.element nested).isPage = true ∧ t.Reaches nested x

/-- Going up from a node of the outermost page that is in no nested one, that page comes first. -/
theorem Site.contextPage_of_reaches (h : t.Site o [] none) (hpage : (t.element o.id).isPage = true)
    {x : NodeId} (hx : t.Reaches o.id x) (hown : ¬ t.InNestedPage o.id x) :
    t.contextPage x false = some o.id := by
  have hsite : ∃ c above, c.id = x ∧ t.Site c above none ∧
      ((x :: above).find? fun y => (t.element y).isPage) = some o.id := by
    induction hx with
    | refl => exact ⟨o, [], rfl, h, by simp [hpage]⟩
    | @tail p x hp hstep ih =>
      have howner : ¬ t.InNestedPage o.id p := fun ⟨nested, hne, hr, hn, hbelow⟩ =>
        hown ⟨nested, hne, hr, hn, hbelow.tail hstep⟩
      obtain ⟨⟨_, held⟩, above, rfl, hs, hfind⟩ := ih howner
      rw [Outline.id_node] at hp hstep hfind
      rw [hs.stands.spans.children] at hstep
      obtain ⟨c, hc, rfl⟩ := List.mem_map.mp hstep
      have hbelow := hs.held hc
      refine ⟨c, _, rfl, hbelow, ?_⟩
      have htop : c.id ≠ o.id := by
        intro heq
        have hparent := hbelow.chain.1
        rw [heq, show t.parent o.id = none from h.chain] at hparent
        cases hparent
      have hplain : (t.element c.id).isPage = false := by
        rw [Bool.eq_false_iff]
        intro hc'
        refine hown ⟨c.id, htop, hp.tail ?_, hc', .refl⟩
        rw [hs.stands.spans.children]
        exact hstep
      rw [List.find?_cons, hplain, hfind]
  obtain ⟨c, above, rfl, hs, hfind⟩ := hsite
  rw [hs.contextPage, hfind]

theorem Heads.contextPage_eq (h : t.Heads stored path root top) {x : NodeId}
    (hx : stored.Reaches top x) (hown : ¬ stored.InNestedPage top x) :
    stored.contextPage x false = some top := by
  obtain ⟨o, rfl, hs⟩ := h.wellFormed
  have hsite : stored.Site o [] none := h.parentless ▸ hs.site
  exact hsite.contextPage_of_reaches (by rw [h.page]; rfl) hx hown

/-! ## Stored trees and stored documents -/

/-- What is shown at a node that may hold one. -/
theorem shown_wrap {w : Wrapper} {child : Option NodeId} (h : t.WellFormed root)
    (he : t.element root = .wrap w child) :
    t.shown root = .node (.wrap w (child.map t.shown)) (t.span root) := by
  obtain ⟨⟨_, held⟩, rfl, hs⟩ := h
  rw [Outline.id_node] at he ⊢
  have hids := hs.spans.children
  rw [he, Element.children] at hids
  rw [shown_node hs.spans hs.nodup, he]
  rcases child with _ | c
  · rfl
  · obtain ⟨o, rfl, rfl⟩ := List.map_eq_singleton_iff.mp hids.symm
    rfl

theorem rooted_of_not_page {d : Document} (h : d.element.isPage = false) :
    Repository.rooted path d = .node (.wrap (.page (some path)) (some d)) d.span := by
  obtain ⟨e, span⟩ := d
  rcases e with members | ⟨w, child⟩ | ⟨params, rows⟩ | l
  · rfl
  · cases w <;> first | rfl | cases h
  · rfl
  · rfl

/-- The document of a stored tree is the stored document. -/
theorem Heads.shown_eq (h : t.Heads stored path o.id top) (hs : t.Stands [] o) :
    stored.shown top = Repository.rooted path (t.shown o.id) := by
  have hcontent : (t.content? o.id).map stored.shown = (t.content? o.id).map t.shown := by
    refine Option.map_congr fun c hc => ?_
    obtain ⟨_, hstored⟩ := h.document?_eq hs hc
    rw [shown, hstored, Option.getD_some]
  rw [shown_wrap h.wellFormed h.page, hcontent, h.span_eq]
  have hwell : t.WellFormed o.id := ⟨o, rfl, hs⟩
  obtain ⟨root, held⟩ := o
  rw [Outline.id_node] at *
  rcases he : (t.element root).isPage with _ | _
  · have hshown := shown_node hs.spans hs.nodup
    have hplain : (t.shown root).element.isPage = false := by
      rw [hshown, Document.element, Element.isPage_refill, he]
    have hspan : (t.shown root).span = t.span root := by
      rw [hshown, Document.span]
    rw [rooted_of_not_page hplain, content?_of_not_page he, hspan, Option.map_some]
  · obtain ⟨old, child, hpage⟩ := eq_page_of_isPage he
    rw [shown_wrap hwell hpage, content?_of_page hpage, Repository.rooted]
    split
    · rename_i hold
      rw [hold]
    · rfl

/-! ## What is found under a path -/

/-- A page that was stored for a tree with its root: besides what its top is, the content is that of
the root page or the whole tree, every node below has its holder as parent, and relative paths
that are in no nested page start from the folder of the path. -/
structure KnowsItsPath (t stored : Tree) (path : String) (root top : NodeId) : Prop extends
    Heads t stored path root top where
  content : ∀ c, t.content? root = some c →
    ∃ d, t.document? c = some d ∧ stored.document? c = some d
  holder : ∀ p x, stored.Reaches top p → x ∈ (stored.element p).children → stored.parent x = some p
  resolves : ∀ x relative, stored.Reaches top x → ¬ stored.InNestedPage top x →
    stored.absolutePath (some relative) (stored.contextPage x false) =
      some (PagePath.makeAbsolute (some relative) (some (PagePath.folder path)))

theorem Heads.knowsItsPath (h : t.Heads stored path o.id top) (hs : t.Stands [] o) :
    t.KnowsItsPath stored path o.id top where
  toHeads := h
  content c hc := ⟨_, h.document?_eq hs hc⟩
  holder p x hp hx := h.wellFormed.parent_eq hp hx
  resolves x relative hx hown := by
    have hpath : stored.pagePath top = some path := by rw [pagePath, h.page]
    rw [h.contextPage_eq hx hown, absolutePath, Option.map_some, hpath]
    rfl

theorem rootDocument_eq (h : t.root = some root) : t.rootDocument = t.shown root := by
  rw [rootDocument, h]
  rfl

/-- A tree that was read knows its path when it is stored, and shows the document that is stored. -/
theorem storedAs_of_ofDocument? {d : Document} (h : ofDocument? d = .ok t) (path : String) :
    (∃ root top, t.root = some root ∧ t.KnowsItsPath (t.storedAs path) path root top) ∧
      (t.storedAs path).rootDocument = Repository.rooted path t.rootDocument := by
  obtain ⟨o, ho⟩ := holds_of_ofDocument? h
  obtain ⟨top, htop⟩ := storedAs_heads ho.stands ho.root_eq ho.loose path
  refine ⟨⟨o.id, top, ho.root_eq, htop.knowsItsPath ho.stands⟩, ?_⟩
  rw [rootDocument_eq htop.root_eq, rootDocument_eq ho.root_eq, htop.shown_eq ho.stands]

end

end Tree

namespace TreeStore

theorem lookup_map_snd {α β : Type} (f : α → β) (pages : List (String × α)) (path : String) :
    (pages.map fun page => (page.1, f page.2)).lookup path = (pages.lookup path).map f := by
  induction pages with
  | nil => rfl
  | cons page rest ih =>
    rw [List.map_cons, List.lookup_cons, List.lookup_cons, ih]
    cases path == page.1 <;> rfl

theorem lookup_reverse_of_last {α : Type} {before after : List (String × α)} {path : String}
    {value : α} (h : path ∉ after.map Prod.fst) :
    (before ++ (path, value) :: after).reverse.lookup path = some value := by
  refine List.lookup_eq_some_iff.mpr ⟨after.reverse, before.reverse, by simp, fun page hp => ?_⟩
  rw [bne_iff_ne]
  rintro rfl
  exact h (List.mem_map_of_mem (List.mem_reverse.mp hp))

/-- Under each path stands what was stored there last, and nothing stands under any other path. What
stands there is a page that knows its path, and in the repository stands the document of it. -/
theorem stored_pages_know_their_own_path (pages : List (String × Tree))
    (decoded : ∀ page ∈ pages, ∃ d, Tree.ofDocument? d = .ok page.2) (path : String) :
    (((ofPages pages).get? path).isSome ↔ path ∈ pages.map Prod.fst) ∧
      (path ∈ (ofPages pages).paths ↔ path ∈ pages.map Prod.fst) ∧
      (∀ before t after, pages = before ++ (path, t) :: after → path ∉ after.map Prod.fst →
        ∃ root stored top, t.root = some root ∧ (ofPages pages).get? path = some stored ∧
          t.KnowsItsPath stored path root top) ∧
      (Repository.ofPages (pages.map fun page => (page.1, page.2.rootDocument))).get? path =
        ((ofPages pages).get? path).map Tree.rootDocument := by
  have hstored : ((ofPages pages).get? path).isSome ↔ path ∈ pages.map Prod.fst := by
    rw [get?_ofPages, Option.isSome_map, List.lookup_isSome_iff]
    simp
  refine ⟨hstored, mem_paths.trans hstored, fun before t after hpages hlast => ?_, ?_⟩
  · obtain ⟨d, hd⟩ := decoded (path, t) (by simp [hpages])
    obtain ⟨⟨root, top, hroot, hknows⟩, _⟩ := Tree.storedAs_of_ofDocument? hd path
    refine ⟨root, t.storedAs path, top, hroot, ?_, hknows⟩
    rw [get?_ofPages, hpages, lookup_reverse_of_last hlast, Option.map_some]
  · rw [get?_ofPages, Repository.get?_ofPages, ← List.map_reverse, lookup_map_snd, Option.map_map,
      Option.map_map]
    refine Option.map_congr fun t ht => ?_
    obtain ⟨before, after, hsplit, _⟩ := List.lookup_eq_some_iff.mp ht
    have hm : (path, t) ∈ pages := List.mem_reverse.mp (by simp [hsplit])
    obtain ⟨d, hd⟩ := decoded _ hm
    exact (Tree.storedAs_of_ofDocument? hd path).2.symm

/-- A page that was read with another path, and stored where a text was stored before. -/
theorem a_page_takes_the_path_of_the_text_before_it :
    let text := Tree.ofDocument (.node (.leaf (.text "bare")) none)
    let link : Document := .node (.wrap (.linkPage (some "b") none) none) none
    let page := Tree.ofDocument (.node (.wrap (.page (some "/Other/kept")) (some link)) (some ⟨0, 4⟩))
    ∃ stored top,
      (ofPages [("/Docs/a", text), ("/Docs/text", text), ("/Docs/a", page)]).get? "/Docs/a" =
        some stored ∧ page.KnowsItsPath stored "/Docs/a" 1 top := by
  intro text link page
  have hdecoded : ∀ stored ∈ [("/Docs/a", text), ("/Docs/text", text), ("/Docs/a", page)],
      ∃ d, Tree.ofDocument? d = .ok stored.2 := by
    intro stored hm
    simp only [List.mem_cons, List.not_mem_nil, or_false] at hm
    rcases hm with rfl | rfl | rfl
    · exact ⟨.node (.leaf (.text "bare")) none, rfl⟩
    · exact ⟨.node (.leaf (.text "bare")) none, rfl⟩
    · exact ⟨.node (.wrap (.page (some "/Other/kept")) (some link)) (some ⟨0, 4⟩), rfl⟩
  obtain ⟨_, _, hlast, _⟩ := stored_pages_know_their_own_path _ hdecoded "/Docs/a"
  obtain ⟨root, stored, top, hroot, hget, hknows⟩ :=
    hlast [("/Docs/a", text), ("/Docs/text", text)] page [] rfl (by simp)
  obtain rfl : 1 = root := Option.some.inj ((show page.root = some 1 from rfl).symm.trans hroot)
  exact ⟨stored, top, hget, hknows⟩

end TreeStore

end WikiHtml
