-- Copies of what stands below a node. While the copies of the nodes below are added, the tree that is
-- copied from may be the one that grows; but no node that was there changes, so all of it is read as it
-- was. A copy is thus the document below the node, added once more.
import WikiHtml.Proofs.Document.Parts
import WikiHtml.Proofs.Tree.Documents
import WikiHtml.Proofs.Tree.Planting

namespace WikiHtml.Tree

/-! ## Reading while the tree grows -/

/-- Whatever is added to `t`, the nodes of `s` are read as they are. -/
def ReadsAs (source : Tree → Tree) (t s : Tree) : Prop :=
  ∀ t', t.Changes t' [] → ∀ x < s.size, x < (source t').size ∧
    (source t').element x = s.element x ∧ (source t').span x = s.span x

section

variable {source : Tree → Tree} {s t : Tree} {o : Outline}

theorem ReadsAs.later (h : ReadsAs source t s) {t' : Tree} (hc : t.Changes t' []) :
    ReadsAs source t' s :=
  fun t'' hc' => h t'' (hc.trans hc' (by simp))

/-- What is in the growing tree from the start is read as it was. -/
theorem readsAs_growing (t : Tree) : ReadsAs (fun t => t) t t :=
  fun _ hc x hx => ⟨Nat.lt_of_lt_of_le hx hc.size_le, hc.element_eq x hx (by simp), hc.span_eq x hx⟩

theorem readsAs_other (t s : Tree) : ReadsAs (fun _ => s) t s :=
  fun _ _ _ hx => ⟨hx, rfl, rfl⟩

/-! ## A copy is a document added again -/

theorem changes_addDocument (t : Tree) (d : Document) : t.Changes (t.addDocument d).2 [] := by
  obtain ⟨o, _, ho⟩ := addDocument_planted t d
  exact ho.changes

theorem changes_addMembers (t : Tree) (ds : List Document) : t.Changes (t.addMembers ds).2 [] := by
  obtain ⟨os, _, hos⟩ := @addMembers_planted ds (fun d _ t => addDocument_planted t d) t
  exact hos.changes

theorem copyWithin_succ {bound : Nat} {id : NodeId} (h : id < (source t).size) :
    (copyWithin source (bound + 1) id).run t =
      ((((source t).element id).children.mapM (copyWithin source bound)).run t).map fun p =>
        p.2.add (((source t).element id).refill p.1) ((source p.2).span id) := by
  rw [copyWithin]
  simp only [Element.mapM_eq, bind_map_left, StateT.run_bind, StateT.run_get, Option.pure_def,
    StateT.run_monadLift, monadLift_self, Option.bind_eq_bind, StateT.run_modifyGet, add_fst,
    Option.bind_some, getElem?_nodes h]
  rcases (((source t).element id).children.mapM (copyWithin source bound)).run t with _ | ⟨ids, t'⟩
  · rfl
  · rfl

theorem addDocument_last (t : Tree) (d : Document) :
    (t.addDocument d).1 + 1 = (t.addDocument d).2.size := by
  obtain ⟨e, span⟩ := d
  rw [addDocument_eq, add_fst, size_add]

/-- Documents are copied one after another, if each of them is. -/
theorem mapM_copyWithin {bound : Nat} {ids : List NodeId} {ds : List Document}
    (h : List.Forall₂ (fun id d => ∀ t, ReadsAs source t s →
      (copyWithin source bound id).run t = some (t.addDocument d)) ids ds)
    (hr : ReadsAs source t s) :
    (ids.mapM (copyWithin source bound)).run t = some (t.addMembers ds) := by
  induction h generalizing t with
  | nil => rfl
  | @cons id d ids ds hfirst _ ih =>
    have hrest := ih (hr.later (changes_addDocument t d))
    rw [List.mapM_cons, StateT.run_bind, hfirst t hr]
    simp only [Option.bind_eq_bind, Option.bind_some, StateT.run_bind, hrest]
    rw [addMembers]
    rfl

theorem copyWithin_run {bound : Nat} {id : NodeId} {d : Document}
    (h : s.documentWithin bound id = some d) (hr : ReadsAs source t s) :
    (copyWithin source bound id).run t = some (t.addDocument d) := by
  refine documentWithin_induct (P := fun bound id d => ∀ t, ReadsAs source t s →
    (copyWithin source bound id).run t = some (t.addDocument d)) ?_ h t hr
  intro bound id ds hid _ hheld t hr
  obtain ⟨hlt, helement, _⟩ := hr t (.refl t []) id hid
  obtain ⟨_, _, hspan⟩ := hr _ (changes_addMembers t ds) id hid
  have hmembers := mapM_copyWithin (hheld.imp fun _ _ hd => hd.2) hr
  have hl : (s.element id).Takes ds.length := Or.inr hheld.length_eq.symm
  rw [copyWithin_succ hlt, helement, hmembers, Option.map_some, hspan, addDocument_eq,
    (s.element id).children_refill _ hl, (s.element id).refill_refill _ _ hl]

/-- A copy of a node that has a document is the document, added once more. -/
theorem deepClone_of_document {id : NodeId} {d : Document} (h : t.document? id = some d) :
    t.deepClone id = t.addDocument d := by
  rw [deepClone, copyWithin_run h (readsAs_growing t), Option.getD_some]

theorem copyFrom_of_document {id : NodeId} {d : Document} (h : s.document? id = some d) :
    t.copyFrom s id = t.addDocument d := by
  rw [copyFrom, copyWithin_run h (readsAs_other t s), Option.getD_some]

theorem deepClone_eq (h : t.Spans o) (hn : o.ids.Nodup) :
    t.deepClone o.id = t.addDocument (t.along o) :=
  deepClone_of_document (document?_eq_along h hn)

theorem copyFrom_eq (h : s.Spans o) (hn : o.ids.Nodup) :
    t.copyFrom s o.id = t.addDocument (s.along o) :=
  copyFrom_of_document (document?_eq_along h hn)

/-! ## What a copy adds -/

theorem length_parts_along (h : t.Spans o) : (t.along o).parts.length = o.ids.length := by
  induction o using Outline.induct with
  | node id held ih =>
    have hl : (held.map t.along).length = (t.element id).children.length := by
      rw [h.children, List.length_map, List.length_map]
    have hheld : held.map (fun c => (t.along c).parts.length) = held.map fun c => c.ids.length :=
      List.map_congr_left fun c hc => ih c hc (h.held c hc)
    rw [along_node, Document.parts_node, (t.element id).children_refill _ (Or.inr hl),
      Outline.ids_node, List.length_cons, List.length_cons, List.flatMap_map, List.length_flatMap,
      List.length_flatMap, hheld]

/-- What stands in `source` along an outline was added to `t` once more, along an outline of new nodes:
the same elements with the same spans, each below its own holder, and the one at the top below none.
They are numbered one after the other, each behind those below it. All that was there is as it was, and
holds none of them. -/
structure Copied (source : Tree) (o : Outline) (t t' : Tree) (c : Outline) : Prop where
  same : ∃ d, source.document? o.id = some d ∧ t'.document? c.id = some d
  stands : t'.Stands [] c
  loose : t'.parent c.id = none
  size_eq : t'.size = t.size + o.ids.length
  numbered : c.postorder = List.range' t.size o.ids.length
  last : c.id + 1 = t'.size
  kept : ∀ x < t.size, t'.nodes[x]? = t.nodes[x]?
  root_eq : t'.root = t.root
  apart : ∀ x ∈ c.ids, ∀ p, x ∈ (t'.element p).children → t.size ≤ p

theorem copied_addDocument (h : s.Spans o) (hn : o.ids.Nodup)
    (hin : ∀ p, ∀ x ∈ (t.element p).children, x < t.size) :
    ∃ c, c.id = (t.addDocument (s.along o)).1 ∧
      Copied s o t (t.addDocument (s.along o)).2 c := by
  obtain ⟨c, hid, hc⟩ := addDocument_planted t (s.along o)
  have hs := hc.stands c (by simp)
  have hshown : (t.addDocument (s.along o)).2.along c = s.along o := by
    rw [← shown_eq_along hs.spans hs.nodup]
    simpa using hc.shown
  have hnumbered := hc.numbered
  rw [List.flatMap_singleton] at hnumbered
  have hlength : c.ids.length = o.ids.length := by
    rw [← length_parts_along hs.spans, hshown, length_parts_along h]
  have hcount : (t.addDocument (s.along o)).2.size - t.size = o.ids.length := by
    rw [← hlength, ← c.postorder_perm.length_eq, hnumbered, List.length_range']
  have hsize := hc.changes.size_le
  have hcopy : (t.addDocument (s.along o)).2.document? c.id = some (s.along o) := by
    rw [document?_eq_along hs.spans hs.nodup, hshown]
  refine ⟨c, hid, ⟨_, document?_eq_along h hn, hcopy⟩, hs, hc.loose c (by simp), by omega,
    hcount ▸ hnumbered, hid ▸ addDocument_last t _, fun x hx => ?_, hc.root_eq, fun x hx p hp => ?_⟩
  · rw [getElem?_nodes hx, getElem?_nodes (Nat.lt_of_lt_of_le hx hsize),
      hc.changes.element_eq x hx (by simp), hc.changes.span_eq x hx,
      hc.changes.parent_eq x hx (by simp)]
  · by_contra hlt
    rw [Nat.not_le] at hlt
    rw [hc.changes.element_eq p hlt (by simp)] at hp
    exact Nat.not_le.mpr (hin p x hp) ((hc.fresh x).mp (by simpa using hx)).1

end

/-- What stands well below a node is copied as it is, within the tree and from any other one, and the
copy is as new as it can be. -/
theorem copies_are_faithful_and_fresh (t : Tree)
    (hin : ∀ p, ∀ x ∈ (t.element p).children, x < t.size) :
    (∀ id, t.WellFormed id → ∃ o c, o.id = id ∧ t.Stands [] o ∧ c.id = (t.deepClone id).1 ∧
      Copied t o t (t.deepClone id).2 c) ∧
    ∀ other id, other.WellFormed id → ∃ o c, o.id = id ∧ other.Stands [] o ∧
      c.id = (t.copyFrom other id).1 ∧ Copied other o t (t.copyFrom other id).2 c := by
  constructor
  · rintro id ⟨o, rfl, ho⟩
    rw [deepClone_eq ho.spans ho.nodup]
    obtain ⟨c, hid, hc⟩ := copied_addDocument ho.spans ho.nodup hin
    exact ⟨o, c, rfl, ho, hid, hc⟩
  · rintro other id ⟨o, rfl, ho⟩
    rw [copyFrom_eq ho.spans ho.nodup]
    obtain ⟨c, hid, hc⟩ := copied_addDocument ho.spans ho.nodup hin
    exact ⟨o, c, rfl, ho, hid, hc⟩

/-- A list, node 2, with an italic word. -/
def italicWord : Tree :=
  ⟨#[⟨.leaf (.text "x"), some ⟨2, 3⟩, some 1⟩, ⟨.wrap .italic (some 0), some ⟨1, 4⟩, some 2⟩,
    ⟨.list [1], none, none⟩], some 2⟩

theorem inside_italicWord : ∀ p, ∀ x ∈ (italicWord.element p).children, x < italicWord.size
  | 0 => by decide
  | 1 => by decide
  | 2 => by decide
  | p + 3 => by
    intro x hx
    rw [element_of_size_le (show italicWord.size ≤ p + 3 from Nat.le_add_left 3 p)] at hx
    cases hx

theorem wellFormed_italicWord : italicWord.WellFormed 1 := by
  refine ⟨.node 1 [.node 0 []], rfl, ?_, ?_, ?_⟩
  · refine .node (by decide) rfl fun o ho => ?_
    obtain rfl := List.mem_singleton.mp ho
    exact .node (by decide) rfl (by simp)
  · simp [Outline.ids_node]
  · simp [Outline.edges_node, italicWord, Tree.parent]

theorem copies_of_an_italic_word_are_new :
    (∀ p, ∀ x ∈ (italicWord.element p).children, x < italicWord.size) ∧ italicWord.WellFormed 1 ∧
      (∃ o c : Outline, o.id = 1 ∧ c.id = 4 ∧
        Copied italicWord o italicWord (italicWord.deepClone 1).2 c) ∧
      ∃ o c : Outline, o.id = 1 ∧ c.id = 1 ∧
        Copied italicWord o Tree.empty (Tree.empty.copyFrom italicWord 1).2 c := by
  have hempty : ∀ p, ∀ x ∈ (Tree.empty.element p).children, x < Tree.empty.size := by
    intro p x hx
    rw [element_of_size_le (Nat.zero_le p)] at hx
    cases hx
  obtain ⟨o, c, ho, -, hc, hclone⟩ :=
    (copies_are_faithful_and_fresh italicWord inside_italicWord).1 1 wellFormed_italicWord
  obtain ⟨o', c', ho', -, hc', hcopy⟩ :=
    (copies_are_faithful_and_fresh Tree.empty hempty).2 italicWord 1 wellFormed_italicWord
  exact ⟨inside_italicWord, wellFormed_italicWord, ⟨o, c, ho, hc, hclone⟩, o', c', ho', hc', hcopy⟩

end WikiHtml.Tree
