-- Documents that are added to a tree. They stand below new nodes, in good order and shown as they
-- are, and no node that was there before changes.
import WikiHtml.Proofs.Document.Induction
import WikiHtml.Proofs.Tree.Shown

namespace WikiHtml

/-! ## Outlines side by side -/

namespace Outline

theorem eq_of_mem_ids {os : List Outline} (hn : (os.flatMap ids).Nodup) {c o : Outline}
    (hc : c ∈ os) (ho : o ∈ os) {x : NodeId} (hx : x ∈ c.ids) (hx' : x ∈ o.ids) : c = o := by
  induction os with
  | nil => simp at hc
  | cons a rest ih =>
    rw [List.flatMap_cons, List.nodup_append'] at hn
    obtain ⟨_, hrest, hdis⟩ := hn
    rcases List.mem_cons.mp hc with rfl | hc' <;> rcases List.mem_cons.mp ho with rfl | ho'
    · rfl
    · exact (hdis hx (List.mem_flatMap.mpr ⟨o, ho', hx'⟩)).elim
    · exact (hdis hx' (List.mem_flatMap.mpr ⟨c, hc', hx⟩)).elim
    · exact ih hrest hc' ho'

/-- No top of outlines side by side is held in one of them. -/
theorem not_top_of_edge {os : List Outline} (hn : (os.flatMap ids).Nodup) {o : Outline}
    (ho : o ∈ os) {e : NodeId × NodeId} (he : e ∈ o.edges) : e.2 ∉ os.map id := by
  intro hm
  obtain ⟨c, hc, hid⟩ := List.mem_map.mp hm
  have heq := eq_of_mem_ids hn hc ho (hid ▸ c.id_mem_ids) (mem_ids_of_edge he)
  have ho' : o.ids.Nodup := (List.nodup_flatMap.mp hn).1 o ho
  exact held_ne_id ho' he (heq ▸ hid.symm)

end Outline

namespace Tree

/-! ## Adding a holder -/

/-- A new node changes none but those that it holds, and these only in their parent. -/
theorem changes_add (t : Tree) {e : Element NodeId} (span : Option Span)
    (h : ∀ a ∈ e.children, a < t.size) : t.Changes (t.add e span).2 e.children where
  size_le := by simp
  span_eq x hx := by rw [span_add, if_neg (Nat.ne_of_lt hx)]
  reshaped x hx := by
    rw [element_add, if_neg (Nat.ne_of_lt hx)]
    exact .refl _
  element_eq x hx _ := by rw [element_add, if_neg (Nat.ne_of_lt hx)]
  parent_eq x hx hn := by
    rw [parent_add t span (fun a ha => Nat.le_of_lt (h a ha)) hx, if_neg hn]

/-- Outlines side by side are in good order below a new holder. -/
theorem Stands.add {t : Tree} {stray : List NodeId} {os : List Outline} {e : Element NodeId}
    (span : Option Span) (hc : e.children = os.map Outline.id) (hs : ∀ o ∈ os, t.Stands stray o)
    (hn : (os.flatMap Outline.ids).Nodup) (ho : ∀ o ∈ os, o.id ∉ stray) :
    (t.add e span).2.Stands stray (.node t.size os) := by
  have hlt : ∀ x ∈ os.flatMap Outline.ids, x < t.size := by
    intro x hx
    obtain ⟨o, hm, hx⟩ := List.mem_flatMap.mp hx
    exact (hs o hm).spans.lt_size x hx
  have hchildren : ∀ a ∈ e.children, a < t.size := by
    intro a ha
    rw [hc] at ha
    obtain ⟨o, hm, rfl⟩ := List.mem_map.mp ha
    exact (hs o hm).spans.inside
  have hparent : ∀ x < t.size, (t.add e span).2.parent x =
      if x ∈ os.map Outline.id then some t.size else t.parent x := by
    intro x hx
    rw [parent_add t span (fun a ha => Nat.le_of_lt (hchildren a ha)) hx, hc]
  refine ⟨.node (by simp) ?_ ?_, ?_, ?_⟩
  · rw [element_add, if_pos rfl, hc]
  · intro o hm
    refine (hs o hm).spans.congr (by simp) fun x hx => ?_
    rw [element_add, if_neg (Nat.ne_of_lt ((hs o hm).spans.lt_size x hx))]
  · rw [Outline.ids_node, List.nodup_cons]
    exact ⟨fun hm => Nat.lt_irrefl _ (hlt _ hm), hn⟩
  · intro e he
    rw [Outline.edges_node, List.mem_append, List.mem_map, List.mem_flatMap] at he
    rcases he with ⟨o, hm, rfl⟩ | ⟨o, hm, he⟩
    · rw [hparent o.id (hs o hm).spans.inside, if_pos (List.mem_map_of_mem hm),
        if_neg (ho o hm)]
    · have hx := Outline.mem_ids_of_edge he
      rw [hparent _ ((hs o hm).spans.lt_size _ hx), if_neg (Outline.not_top_of_edge hn hm he)]
      exact (hs o hm).linked e he

/-- What stands is shown as before beside a new node. -/
theorem Stands.shown_add {t : Tree} {stray : List NodeId} {o : Outline} (h : t.Stands stray o)
    (e : Element NodeId) (span : Option Span) : (t.add e span).2.shown o.id = t.shown o.id := by
  refine shown_congr h.spans h.nodup (by simp) ?_ ?_ <;> intro x hx
  · rw [element_add, if_neg (Nat.ne_of_lt (h.spans.lt_size x hx))]
  · rw [span_add, if_neg (Nat.ne_of_lt (h.spans.lt_size x hx))]

/-! ## Adding documents in the order of their element -/

theorem addMembers_append (t : Tree) (ds ds' : List Document) :
    t.addMembers (ds ++ ds') =
      ((t.addMembers ds).1 ++ ((t.addMembers ds).2.addMembers ds').1,
        ((t.addMembers ds).2.addMembers ds').2) := by
  induction ds generalizing t with
  | nil => simp [addMembers]
  | cons d rest ih => simp [addMembers, ih]

theorem length_addMembers (t : Tree) (ds : List Document) :
    (t.addMembers ds).1.length = ds.length := by
  induction ds generalizing t with
  | nil => simp [addMembers]
  | cons d rest ih => simp [addMembers, ih]

theorem addCells_eq (t : Tree) (cells : List (Cell Document)) :
    t.addCells cells =
      (Element.refillCells cells (t.addMembers (Element.rowContents cells)).1,
        (t.addMembers (Element.rowContents cells)).2) := by
  induction cells generalizing t with
  | nil => simp [addCells, addMembers, Element.refillCells, Element.rowContents]
  | cons cell rest ih =>
    obtain ⟨header, params, _ | d⟩ := cell
    · simp [addCells, addChild, ih, Element.refillCells, Element.rowContents]
    · simp [addCells, addChild, addMembers, ih, Element.refillCells, Element.rowContents]

theorem addRows_eq (t : Tree) (rows : List (Row Document)) :
    t.addRows rows =
      (Element.refillRows rows (t.addMembers (Element.contents rows)).1,
        (t.addMembers (Element.contents rows)).2) := by
  induction rows generalizing t with
  | nil => simp [addRows, addMembers, Element.refillRows, Element.contents]
  | cons row rest ih =>
    obtain ⟨params, cells⟩ := row
    rw [addRows, addCells_eq]
    dsimp only
    rw [ih, Element.contents_cons, addMembers_append]
    have hl := length_addMembers t (Element.rowContents cells)
    simp only [Element.refillRows, ← hl, List.drop_left]
    rw [← Element.refillCells_take cells (_ ++ _), ← hl, List.take_left]

/-- What an element holds is added in the order of the document, whatever the element is. -/
theorem addHeld_eq (t : Tree) (e : Element Document) :
    t.addHeld e = (e.refill (t.addMembers e.children).1, (t.addMembers e.children).2) := by
  cases e with
  | list members => rfl
  | wrap w child =>
    rcases child with _ | d
    · simp [addHeld, addChild, Element.children, Element.refill, addMembers]
    · simp [addHeld, addChild, Element.children, Element.refill, addMembers]
  | table params rows => rw [addHeld, addRows_eq]; rfl
  | leaf l => simp [addHeld, Element.children, Element.refill, addMembers]

theorem addDocument_eq (t : Tree) (e : Element Document) (span : Option Span) :
    t.addDocument (.node e span) =
      (t.addMembers e.children).2.add (e.refill (t.addMembers e.children).1) span := by
  rw [addDocument, addHeld_eq]

/-! ## Planted documents -/

/-- Documents were added to a tree, in whatever order: the new nodes are those of outlines in good
order, which show the documents and have no parent. Nothing that was there changed. -/
structure Added (t t' : Tree) (os : List Outline) (ds : List Document) : Prop where
  changes : t.Changes t' []
  root_eq : t'.root = t.root
  stands : ∀ o ∈ os, t'.Stands [] o
  loose : ∀ o ∈ os, t'.parent o.id = none
  nodup : (os.flatMap Outline.ids).Nodup
  fresh : ∀ x : Nat, x ∈ os.flatMap Outline.ids ↔ t.size ≤ x ∧ x < t'.size
  shown : os.map (fun o => t'.shown o.id) = ds

theorem Added.nil (t : Tree) : t.Added t [] [] :=
  ⟨.refl t [], rfl, by simp, by simp, by simp, by simp, rfl⟩

theorem Added.length_eq {t t' : Tree} {os : List Outline} {ds : List Document}
    (h : t.Added t' os ds) : os.length = ds.length := by
  rw [← h.shown, List.length_map]

/-- The tops of what was added are new nodes. -/
theorem Added.top_new {t t' : Tree} {os : List Outline} {ds : List Document}
    (h : t.Added t' os ds) {o : Outline} (ho : o ∈ os) : t.size ≤ o.id ∧ o.id < t'.size :=
  (h.fresh o.id).mp (List.mem_flatMap.mpr ⟨o, ho, o.id_mem_ids⟩)

/-- The first documents are shown at the first tops, the others at the others. -/
theorem Added.shown_append {t t' : Tree} {os os' : List Outline} {ds ds' : List Document}
    (h : t.Added t' (os ++ os') (ds ++ ds')) (hl : os.length = ds.length) :
    os.map (fun o => t'.shown o.id) = ds ∧ os'.map (fun o => t'.shown o.id) = ds' := by
  have hshown := h.shown
  rw [List.map_append] at hshown
  exact List.append_inj hshown (by rw [List.length_map, hl])

theorem Added.append {t t' t'' : Tree} {os os' : List Outline} {ds ds' : List Document}
    (h : t.Added t' os ds) (h' : t'.Added t'' os' ds') :
    t.Added t'' (os ++ os') (ds ++ ds') where
  changes := h.changes.trans h'.changes (by simp)
  root_eq := h'.root_eq.trans h.root_eq
  stands o ho := by
    rcases List.mem_append.mp ho with ho | ho
    · exact (h.stands o ho).congr h'.changes (by simp) (by simp)
    · exact h'.stands o ho
  loose o ho := by
    rcases List.mem_append.mp ho with ho | ho
    · rw [h'.changes.parent_eq _ (h.stands o ho).spans.inside (by simp)]
      exact h.loose o ho
    · exact h'.loose o ho
  nodup := by
    rw [List.flatMap_append, List.nodup_append']
    refine ⟨h.nodup, h'.nodup, fun x hx hx' => ?_⟩
    have := (h.fresh x).mp hx
    have := (h'.fresh x).mp hx'
    omega
  fresh x := by
    have := h.changes.size_le
    have := h'.changes.size_le
    rw [List.flatMap_append, List.mem_append, h.fresh, h'.fresh]
    omega
  shown := by
    rw [List.map_append, h'.shown, ← h.shown]
    congr 1
    exact List.map_congr_left fun o ho =>
      h'.changes.shown_eq (h.stands o ho).spans (h.stands o ho).nodup (by simp)

/-- It does not count in which order the documents are told. -/
theorem Added.swap {t t' : Tree} {os os' : List Outline} {ds ds' : List Document}
    (h : t.Added t' (os ++ os') (ds ++ ds')) (hl : os.length = ds.length) :
    t.Added t' (os' ++ os) (ds' ++ ds) := by
  have hids : ((os' ++ os).flatMap Outline.ids).Perm ((os ++ os').flatMap Outline.ids) :=
    List.perm_append_comm.flatMap_right _
  have hmem : ∀ o, o ∈ os' ++ os ↔ o ∈ os ++ os' := fun o => by simp [or_comm]
  obtain ⟨hfirst, hsecond⟩ := h.shown_append hl
  refine ⟨h.changes, h.root_eq, fun o ho => h.stands o ((hmem o).mp ho),
    fun o ho => h.loose o ((hmem o).mp ho), hids.nodup_iff.mpr h.nodup, fun x => ?_, ?_⟩
  · rw [hids.mem_iff, h.fresh]
  · rw [List.map_append, hfirst, hsecond]

/-- The document told first may be told last. -/
theorem Added.rotate {t t' : Tree} {o : Outline} {os : List Outline} {d : Document}
    {ds : List Document} (h : t.Added t' (o :: os) (d :: ds)) :
    t.Added t' (os ++ [o]) (ds ++ [d]) := by
  have hboth : t.Added t' ([o] ++ os) ([d] ++ ds) := h
  exact hboth.swap rfl

section

variable {t t' : Tree} {os rest : List Outline} {e : Element Document} {ds : List Document}

/-- The children of a new node that holds some of what was added are the tops of that. -/
theorem Added.children_refill (h : t.Added t' (os ++ rest) (e.children ++ ds))
    (hlength : os.length = e.children.length) :
    (e.refill (os.map Outline.id)).children = os.map Outline.id ∧
      ∀ a ∈ (e.refill (os.map Outline.id)).children, t.size ≤ a ∧ a < t'.size := by
  have hc : (e.refill (os.map Outline.id)).children = os.map Outline.id :=
    e.children_refill _ (Or.inr (by rw [List.length_map, hlength]))
  refine ⟨hc, fun a ha => ?_⟩
  rw [hc] at ha
  obtain ⟨o, ho, rfl⟩ := List.mem_map.mp ha
  exact h.top_new (List.mem_append_left _ ho)

/-- A new node may come to hold some of the documents that were added. -/
theorem Added.add (span : Option Span) (h : t.Added t' (os ++ rest) (e.children ++ ds))
    (hlength : os.length = e.children.length) :
    t.Added (t'.add (e.refill (os.map Outline.id)) span).2 (.node t'.size os :: rest)
      (.node e span :: ds) := by
  obtain ⟨hos, hrest⟩ := h.shown_append hlength
  obtain ⟨hc, hnew⟩ := h.children_refill hlength
  have hn := h.nodup
  rw [List.flatMap_append, List.nodup_append'] at hn
  obtain ⟨hnodup, hnodup', hapart⟩ := hn
  have hstand : ∀ o ∈ os, t'.Stands [] o := fun o ho => h.stands o (List.mem_append_left _ ho)
  have hstay : ∀ o ∈ rest, t'.Stands [] o := fun o ho => h.stands o (List.mem_append_right _ ho)
  have hchanges := changes_add t' span fun a ha => (hnew a ha).2
  have hstands : (t'.add (e.refill (os.map Outline.id)) span).2.Stands [] (.node t'.size os) :=
    Stands.add span hc hstand hnodup (by simp)
  -- What is not held by the new node is apart from what is.
  have hfree : ∀ o ∈ rest, ∀ x ∈ o.ids, x ∉ (e.refill (os.map Outline.id)).children := by
    intro o ho x hx ha
    rw [hc] at ha
    obtain ⟨c, hcm, rfl⟩ := List.mem_map.mp ha
    exact hapart (List.mem_flatMap.mpr ⟨c, hcm, c.id_mem_ids⟩) (List.mem_flatMap.mpr ⟨o, ho, hx⟩)
  refine ⟨h.changes.trans hchanges fun x hx => Or.inr (hnew x hx).1, ?_, ?_, ?_, ?_, ?_, ?_⟩
  · rw [root_add, h.root_eq]
  · intro o ho
    rcases List.mem_cons.mp ho with rfl | ho
    · exact hstands
    · exact (hstay o ho).congr hchanges (hfree o ho) (by simp)
  · intro o ho
    rcases List.mem_cons.mp ho with rfl | ho
    · exact parent_add_self t' span fun a ha => (hnew a ha).2
    · rw [hchanges.parent_eq o.id (hstay o ho).spans.inside (hfree o ho o.id o.id_mem_ids)]
      exact h.loose o (List.mem_append_right _ ho)
  · rw [List.flatMap_cons, List.nodup_append']
    refine ⟨hstands.nodup, hnodup', fun x hx hx' => ?_⟩
    obtain ⟨o, ho, hxo⟩ := List.mem_flatMap.mp hx'
    rw [Outline.ids_node, List.mem_cons] at hx
    rcases hx with rfl | hx
    · exact Nat.lt_irrefl _ ((hstay o ho).spans.lt_size _ hxo)
    · exact hapart hx hx'
  · intro x
    have hmem := h.fresh x
    have := h.changes.size_le
    rw [List.flatMap_append, List.mem_append] at hmem
    rw [List.flatMap_cons, List.mem_append, Outline.ids_node, List.mem_cons, or_assoc, hmem,
      size_add]
    omega
  · have hheld : os.map (fun o => (t'.add (e.refill (os.map Outline.id)) span).2.shown o.id) =
        e.children := by
      rw [← hos]
      exact List.map_congr_left fun o ho => (hstand o ho).shown_add _ span
    have hothers : rest.map (fun o => (t'.add (e.refill (os.map Outline.id)) span).2.shown o.id) =
        ds := by
      rw [← hrest]
      exact List.map_congr_left fun o ho => (hstay o ho).shown_add _ span
    have hl : (os.map Outline.id).length = e.children.length := by rw [List.length_map, hlength]
    rw [List.map_cons, Outline.id_node, shown_node hstands.spans hstands.nodup, element_add,
      if_pos rfl, span_add, if_pos rfl, Element.refill_refill _ _ _ (Or.inr hl), hheld, hothers,
      Element.refill_children]

end

/-- Documents were added from their leaves up: the new nodes are numbered one after the other, each
behind those below it. -/
structure Planted (t t' : Tree) (os : List Outline) (ds : List Document) : Prop extends
    Added t t' os ds where
  numbered : os.flatMap Outline.postorder = List.range' t.size (t'.size - t.size)

theorem Planted.nil (t : Tree) : t.Planted t [] [] :=
  ⟨.nil t, by simp⟩

theorem Planted.append {t t' t'' : Tree} {os os' : List Outline} {ds ds' : List Document}
    (h : t.Planted t' os ds) (h' : t'.Planted t'' os' ds') :
    t.Planted t'' (os ++ os') (ds ++ ds') where
  toAdded := h.toAdded.append h'.toAdded
  numbered := by
    have hsize := h.changes.size_le
    have hsize' := h'.changes.size_le
    have hmiddle : t'.size = t.size + 1 * (t'.size - t.size) := by omega
    have hsum : t''.size - t.size = (t'.size - t.size) + (t''.size - t'.size) := by omega
    rw [List.flatMap_append, h.numbered, h'.numbered, hsum, List.range'_append.symm, ← hmiddle]

theorem Planted.add {t t' : Tree} {os : List Outline} {e : Element Document} (span : Option Span)
    (h : t.Planted t' os e.children) :
    t.Planted (t'.add (e.refill (os.map Outline.id)) span).2 [.node t'.size os]
      [.node e span] where
  toAdded := by
    have hadded : t.Added t' (os ++ []) (e.children ++ []) := by simpa using h.toAdded
    exact hadded.add span h.length_eq
  numbered := by
    have hsize := h.changes.size_le
    have hsum : (t'.add (e.refill (os.map Outline.id)) span).2.size - t.size =
        t'.size - t.size + 1 := by
      rw [size_add]
      omega
    have hlast : t.size + 1 * (t'.size - t.size) = t'.size := by omega
    rw [List.flatMap_singleton, Outline.postorder_node, h.numbered, hsum, List.range'_concat, hlast]

theorem addMembers_planted {ds : List Document}
    (h : ∀ d ∈ ds, ∀ t : Tree, ∃ o, o.id = (t.addDocument d).1 ∧
      t.Planted (t.addDocument d).2 [o] [d]) (t : Tree) :
    ∃ os, os.map Outline.id = (t.addMembers ds).1 ∧ t.Planted (t.addMembers ds).2 os ds := by
  induction ds generalizing t with
  | nil => exact ⟨[], by simp [addMembers], by simpa [addMembers] using Planted.nil t⟩
  | cons d rest ih =>
    obtain ⟨o, hid, ho⟩ := h d (by simp) t
    obtain ⟨os, hids, hos⟩ := ih (fun a ha => h a (by simp [ha])) (t.addDocument d).2
    refine ⟨o :: os, by simp [addMembers, hid, hids], ?_⟩
    simpa [addMembers] using ho.append hos

/-- An added document stands below new nodes and is shown as it is; nothing else changes. -/
theorem addDocument_planted (t : Tree) (d : Document) :
    ∃ o, o.id = (t.addDocument d).1 ∧ t.Planted (t.addDocument d).2 [o] [d] := by
  induction d using Document.induct generalizing t with
  | node e span ih =>
    obtain ⟨os, hids, hos⟩ := addMembers_planted (fun d hd t => ih d hd t) t
    refine ⟨.node (t.addMembers e.children).2.size os, ?_, ?_⟩
    · rw [addDocument_eq, add_fst, Outline.id_node]
    · rw [addDocument_eq, ← hids]
      exact hos.add span

/-! ## At the top -/

theorem Stands.setRoot {t : Tree} {stray : List NodeId} {o : Outline} (h : t.Stands stray o) :
    (t.setRoot o.id).Stands stray o where
  spans := h.spans.congr (by simp) (by simp)
  nodup := h.nodup
  linked e he := by
    rw [parent_setRoot _ _ h.spans.inside, if_neg (Outline.held_ne_id h.nodup he)]
    exact h.linked e he

/-- The tree of a document shows it at its top, which has no parent. -/
theorem ofDocument_stands (d : Document) :
    ∃ o, (ofDocument d).root = some o.id ∧ (ofDocument d).Stands [] o ∧
      (ofDocument d).parent o.id = none ∧ (ofDocument d).shown o.id = d := by
  obtain ⟨o, hid, ho⟩ := addDocument_planted empty d
  have hs := ho.stands o (by simp)
  have hd : ofDocument d = ((empty.addDocument d).2).setRoot o.id := by rw [hid]; rfl
  refine ⟨o, ?_, ?_, ?_, ?_⟩ <;> rw [hd]
  · exact root_setRoot ..
  · exact hs.setRoot
  · rw [parent_setRoot _ _ hs.spans.inside, if_pos rfl]
  · rw [shown_congr hs.spans hs.nodup (by simp) (by simp) (by simp)]
    simpa using ho.shown

end Tree

end WikiHtml
