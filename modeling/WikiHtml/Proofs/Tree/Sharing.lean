-- Trees in which no node is shared: of all nodes of the table, those included that were taken out of
-- their place and still hold what they held, at most one holds a given node, and holds it once. A
-- change that puts only new nodes into places, or the node that was there, keeps this.
import WikiHtml.Proofs.Tree.Site

namespace WikiHtml.Tree

/-- Some node of the table holds the node. -/
def Held (t : Tree) (x : NodeId) : Prop :=
  ∃ holder, x ∈ (t.element holder).children

/-- Every node that is held is a node of the table, and is held by one node and once. -/
structure Unshared (t : Tree) : Prop where
  inside : ∀ holder, ∀ x ∈ (t.element holder).children, x < t.size
  once : ∀ holder, (t.element holder).children.Nodup
  single : ∀ holder holder' x, x ∈ (t.element holder).children →
    x ∈ (t.element holder').children → holder = holder'

/-- What is held in an unshared tree is in one place only. -/
theorem Unshared.place_unique {t : Tree} (h : t.Unshared) {x holder holder' : NodeId} {k k' : Nat}
    (hk : (t.element holder).children[k]? = some x)
    (hk' : (t.element holder').children[k']? = some x) : holder' = holder ∧ k' = k := by
  obtain rfl : holder' = holder :=
    h.single _ _ x (List.mem_of_getElem? hk') (List.mem_of_getElem? hk)
  obtain ⟨hlt, _⟩ := List.getElem?_eq_some_iff.mp hk'
  exact ⟨rfl, List.getElem?_inj hlt (h.once _) |>.mp (hk'.trans hk.symm)⟩

/-! ## One change -/

section

variable {t t' : Tree} {p : NodeId}

/-- Only one node holds others than before. If these are held by none but itself, no node is
shared. -/
theorem Unshared.rehold (h : t.Unshared) (hs : t.size ≤ t'.size)
    (he : ∀ x, x ≠ p → t'.element x = t.element x)
    (hin : ∀ x ∈ (t'.element p).children, x < t'.size) (hn : (t'.element p).children.Nodup)
    (hfree : ∀ x ∈ (t'.element p).children, ∀ holder, x ∈ (t.element holder).children →
      holder = p) : t'.Unshared where
  inside holder x hx := by
    by_cases hp : holder = p
    · subst hp
      exact hin x hx
    · rw [he holder hp] at hx
      exact Nat.lt_of_lt_of_le (h.inside holder x hx) hs
  once holder := by
    by_cases hp : holder = p
    · exact hp ▸ hn
    · rw [he holder hp]
      exact h.once holder
  single holder holder' x hx hx' := by
    by_cases hp : holder = p <;> by_cases hp' : holder' = p
    · rw [hp, hp']
    · subst hp
      exact (hfree x hx holder' (he holder' hp' ▸ hx')).symm
    · subst hp'
      exact hfree x hx' holder (he holder hp ▸ hx)
    · exact h.single holder holder' x (he holder hp ▸ hx) (he holder' hp' ▸ hx')

/-- What is held after that was held before or is held by that node. -/
theorem held_of_rehold (he : ∀ x, x ≠ p → t'.element x = t.element x) {x : NodeId}
    (hx : t'.Held x) : t.Held x ∨ x ∈ (t'.element p).children := by
  obtain ⟨holder, hx⟩ := hx
  by_cases hp : holder = p
  · exact Or.inr (hp ▸ hx)
  · exact Or.inl ⟨holder, he holder hp ▸ hx⟩

theorem Unshared.congr (h : t.Unshared) (hs : t'.size = t.size)
    (he : ∀ x, t'.element x = t.element x) : t'.Unshared where
  inside holder x hx := hs ▸ h.inside holder x (he holder ▸ hx)
  once holder := he holder ▸ h.once holder
  single holder holder' x hx hx' := h.single holder holder' x (he holder ▸ hx) (he holder' ▸ hx')

theorem held_congr (he : ∀ x, t'.element x = t.element x) {x : NodeId} :
    t'.Held x ↔ t.Held x := by
  simp only [Held, he]

@[simp] theorem held_setParent (t : Tree) (id : NodeId) (parent : Option NodeId) (x : NodeId) :
    (t.setParent id parent).Held x ↔ t.Held x :=
  held_congr (element_setParent t id parent)

@[simp] theorem held_setRoot (t : Tree) (id x : NodeId) : (t.setRoot id).Held x ↔ t.Held x :=
  held_congr (element_setRoot t id)

end

/-! ## Changes that hold only new nodes -/

/-- A change after which no node is shared and none that was there is held that had not been. -/
structure HoldsNew (t t' : Tree) : Prop where
  size_le : t.size ≤ t'.size
  unshared : t'.Unshared
  held : ∀ x < t.size, t'.Held x → t.Held x

/-- What may come into the place of a node: itself, or a new node that none holds yet. -/
def Fits (t t' : Tree) (old new : NodeId) : Prop :=
  new = old ∨ t.size ≤ new ∧ ¬ t'.Held new

section

variable {t t' t'' : Tree}

theorem Unshared.holdsNew_self (h : t.Unshared) : t.HoldsNew t :=
  ⟨Nat.le_refl _, h, fun _ _ hx => hx⟩

theorem HoldsNew.trans (h : t.HoldsNew t') (h' : t'.HoldsNew t'') : t.HoldsNew t'' where
  size_le := Nat.le_trans h.size_le h'.size_le
  unshared := h'.unshared
  held x hx hheld := h.held x hx (h'.held x (Nat.lt_of_lt_of_le hx h.size_le) hheld)

theorem HoldsNew.congr (h : t.HoldsNew t') (hs : t''.size = t'.size)
    (he : ∀ x, t''.element x = t'.element x) : t.HoldsNew t'' where
  size_le := Nat.le_trans h.size_le (Nat.le_of_eq hs.symm)
  unshared := h.unshared.congr hs he
  held x hx hheld := h.held x hx ((held_congr he).mp hheld)

/-- A node that fits still does after a change that holds only new nodes. -/
theorem Fits.later {old new : NodeId} (h : t.Fits t' old new) (h' : t'.HoldsNew t'')
    (hnew : new < t'.size) : t.Fits t'' old new :=
  h.imp_right fun ⟨hle, hfree⟩ => ⟨hle, fun hheld => hfree (h'.held new hnew hheld)⟩

/-! ## Adding -/

theorem Unshared.size_not_held (h : t.Unshared) : ¬ t.Held t.size := fun ⟨holder, hx⟩ =>
  Nat.lt_irrefl _ (h.inside holder _ hx)

/-- A new node may hold nodes that none holds, each of them once. -/
theorem Unshared.add (h : t.Unshared) {e : Element NodeId} (span : Option Span)
    (hin : ∀ x ∈ e.children, x < t.size) (hn : e.children.Nodup)
    (hfree : ∀ x ∈ e.children, ¬ t.Held x) :
    (t.add e span).2.Unshared ∧ ¬ (t.add e span).2.Held t.size := by
  have he : ∀ x, x ≠ t.size → (t.add e span).2.element x = t.element x := fun x hx => by
    rw [element_add, if_neg hx]
  have hnew : (t.add e span).2.element t.size = e := by rw [element_add, if_pos rfl]
  constructor
  · refine h.rehold (p := t.size) (by simp) he ?_ ?_ ?_
    · intro x hx
      rw [hnew] at hx
      rw [size_add]
      exact Nat.lt_succ_of_lt (hin x hx)
    · rw [hnew]
      exact hn
    · intro x hx holder hheld
      rw [hnew] at hx
      exact absurd ⟨holder, hheld⟩ (hfree x hx)
  · intro hheld
    rcases held_of_rehold he hheld with hold | hself
    · exact h.size_not_held hold
    · rw [hnew] at hself
      exact Nat.lt_irrefl _ (hin _ hself)

theorem Unshared.addEmpty (h : t.Unshared) :
    t.HoldsNew t.addEmpty.2 ∧ ¬ t.addEmpty.2.Held t.size := by
  obtain ⟨hunshared, hfree⟩ := h.add (e := .list []) none (by simp [Element.children])
    (by simp [Element.children]) (by simp [Element.children])
  refine ⟨⟨by simp [Tree.addEmpty], hunshared, fun x hx hheld => ?_⟩, hfree⟩
  have he : ∀ y, y ≠ t.size → t.addEmpty.2.element y = t.element y := fun y hy => by
    rw [Tree.addEmpty, element_add, if_neg hy]
  rcases held_of_rehold he hheld with hold | hself
  · exact hold
  · rw [Tree.addEmpty, element_add, if_pos rfl] at hself
    simp [Element.children] at hself

/-! ## Refilling and taking out -/

variable {p old new : NodeId} {k : Nat}

/-- A node that fits into a place has no other holder than that of the place. -/
theorem Fits.holder_eq (h : t.Fits t' old new) (ht : t'.Unshared)
    (hk : (t'.element p).children[k]? = some old) {holder : NodeId}
    (hx : new ∈ (t'.element holder).children) : holder = p := by
  rcases h with rfl | ⟨_, hfree⟩
  · exact ht.single holder p new hx (List.mem_of_getElem? hk)
  · exact absurd ⟨holder, hx⟩ hfree

theorem Fits.nodup_set (h : t.Fits t' old new) (ht : t'.Unshared)
    (hk : (t'.element p).children[k]? = some old) :
    ((t'.element p).children.set k new).Nodup := by
  rcases h with rfl | ⟨_, hfree⟩
  · obtain ⟨hlt, hget⟩ := List.getElem?_eq_some_iff.mp hk
    rw [← hget, List.set_getElem_self]
    exact ht.once p
  · exact (ht.once p).set fun hm => hfree ⟨p, hm⟩

theorem Fits.held (h : t.Fits t' old new) (hold : t.Held old) (hnew : new < t.size) :
    t.Held new := by
  rcases h with rfl | ⟨hle, _⟩
  · exact hold
  · exact absurd hnew (Nat.not_lt.mpr hle)

/-- Into the place of a held node comes a node that fits. -/
theorem HoldsNew.refit (h : t.HoldsNew t') (hp : p < t'.size)
    (hk : (t'.element p).children[k]? = some old) (hold : t.Held old) (hnew : new < t'.size)
    (hfits : t.Fits t' old new) : t.HoldsNew (t'.refit p k new) := by
  have he : ∀ x, x ≠ p → (t'.refit p k new).element x = t'.element x := fun x hx => by
    rw [element_refit hp, if_neg hx]
  have hc : ((t'.refit p k new).element p).children = (t'.element p).children.set k new :=
    children_refit hp new
  have hmem : ∀ x ∈ ((t'.refit p k new).element p).children,
      x ∈ (t'.element p).children ∨ x = new := fun x hx => by
    rw [hc] at hx
    exact List.mem_or_eq_of_mem_set hx
  refine ⟨by simpa using h.size_le, h.unshared.rehold (p := p) (by simp) he ?_ ?_ ?_, ?_⟩
  · intro x hx
    rw [size_refit]
    rcases hmem x hx with hx | rfl
    · exact h.unshared.inside p x hx
    · exact hnew
  · rw [hc]
    exact hfits.nodup_set h.unshared hk
  · intro x hx holder hheld
    rcases hmem x hx with hx | rfl
    · exact h.unshared.single holder p x hheld hx
    · exact hfits.holder_eq h.unshared hk hheld
  · intro x hx hheld
    rcases held_of_rehold he hheld with hbefore | hself
    · exact h.held x hx hbefore
    · rcases hmem x hself with hx' | rfl
      · exact h.held x hx ⟨p, hx'⟩
      · exact hfits.held hold hx

/-- A member may leave its list. -/
theorem HoldsNew.takeOut (h : t.HoldsNew t') (hl : (t'.element p).isList = true)
    (hk : (t'.element p).children[k]? = some old) (hp : p < t'.size) :
    t.HoldsNew (t'.takeOut p k) := by
  have he : ∀ x, x ≠ p → (t'.takeOut p k).element x = t'.element x := fun x hx => by
    rw [element_takeOut hl hk hp, if_neg hx]
  have hsub : ((t'.takeOut p k).element p).children.Sublist (t'.element p).children := by
    rw [children_takeOut hl hk hp]
    exact List.eraseIdx_sublist ..
  have hsize : (t'.takeOut p k).size = t'.size := by simp [takeOut_eq hl hk]
  refine ⟨hsize ▸ h.size_le, h.unshared.rehold (p := p) (Nat.le_of_eq hsize.symm) he ?_ ?_ ?_, ?_⟩
  · intro x hx
    rw [hsize]
    exact h.unshared.inside p x (hsub.subset hx)
  · exact (h.unshared.once p).sublist hsub
  · exact fun x hx holder hheld => h.unshared.single holder p x hheld (hsub.subset hx)
  · intro x hx hheld
    rcases held_of_rehold he hheld with hbefore | hself
    · exact h.held x hx hbefore
    · exact h.held x hx ⟨p, hsub.subset hself⟩

end

/-! ## Nodes below a node -/

section

variable {t : Tree} {o : Outline}

/-- Below every node of an outline without repetitions there is one without repetitions. -/
theorem Spans.descend (h : t.Spans o) (hn : o.ids.Nodup) {x : NodeId} (hx : x ∈ o.ids) :
    ∃ held, t.Spans (.node x held) ∧ (Outline.node x held).ids.Nodup := by
  induction o using Outline.induct with
  | node id held ih =>
    rw [Outline.ids_node, List.mem_cons, List.mem_flatMap] at hx
    rcases hx with rfl | ⟨c, hc, hx⟩
    · exact ⟨held, h, hn⟩
    · exact ih c hc (h.held c hc) (Spans.nodup_held hn hc) hx

/-- The tops of outlines side by side without repetitions are different. -/
theorem nodup_tops {held : List Outline} (hn : (held.flatMap Outline.ids).Nodup) :
    (held.map Outline.id).Nodup := by
  induction held with
  | nil => simp
  | cons c rest ih =>
    rw [List.flatMap_cons, List.nodup_append'] at hn
    obtain ⟨_, hrest, hdis⟩ := hn
    rw [List.map_cons, List.nodup_cons]
    refine ⟨fun hm => ?_, ih hrest⟩
    obtain ⟨d, hd, he⟩ := List.mem_map.mp hm
    exact hdis c.id_mem_ids (List.mem_flatMap.mpr ⟨d, hd, he ▸ d.id_mem_ids⟩)

/-- No node of an outline without repetitions holds a node twice. -/
theorem Spans.nodup_children (h : t.Spans o) (hn : o.ids.Nodup) {x : NodeId} (hx : x ∈ o.ids) :
    (t.element x).children.Nodup := by
  obtain ⟨held, hs, hnodup⟩ := h.descend hn hx
  rw [Outline.ids_node, List.nodup_cons] at hnodup
  rw [hs.children]
  exact nodup_tops hnodup.2

/-- On the way down from a node one does not come to it again. -/
theorem Spans.acyclic (h : t.Spans o) (hn : o.ids.Nodup) {x : NodeId} (hx : x ∈ o.ids) :
    ¬ Relation.TransGen (fun holder y => y ∈ (t.element holder).children) x x := by
  obtain ⟨held, hs, hnodup⟩ := h.descend hn hx
  intro hloop
  obtain ⟨y, hy, hback⟩ := Relation.TransGen.head'_iff.mp hloop
  rw [hs.children] at hy
  obtain ⟨c, hc, rfl⟩ := List.mem_map.mp hy
  rw [Outline.ids_node, List.nodup_cons] at hnodup
  exact hnodup.1 (List.mem_flatMap.mpr ⟨c, hc, (hs.held c hc).mem_of_reaches hback⟩)

end

/-! ## Added documents -/

section

variable {t t' : Tree} {o : Outline} {d : Document}

theorem Added.mem_ids_iff (h : t.Added t' [o] [d]) {x : Nat} :
    x ∈ o.ids ↔ t.size ≤ x ∧ x < t'.size := by
  simpa using h.fresh x

/-- A holder is a node that was there and holds what it held, or one of the outline. -/
theorem Added.held_cases (h : t.Added t' [o] [d]) (ht : t.Unshared) {holder x : NodeId}
    (hx : x ∈ (t'.element holder).children) :
    x ∈ (t.element holder).children ∧ x < t.size ∨
      (holder, x) ∈ o.edges ∧ t.size ≤ x ∧ x < t'.size := by
  have hs : t'.Stands [] o := h.stands o (by simp)
  rcases Nat.lt_or_ge holder t.size with hlt | hge
  · rw [h.changes.element_eq holder hlt (by simp)] at hx
    exact Or.inl ⟨hx, ht.inside holder x hx⟩
  · rcases Nat.lt_or_ge holder t'.size with hlt' | hge'
    · have he := hs.spans.edge_iff.mpr ⟨h.mem_ids_iff.mpr ⟨hge, hlt'⟩, hx⟩
      exact Or.inr ⟨he, h.mem_ids_iff.mp (Outline.mem_ids_of_edge he)⟩
    · rw [element_of_size_le hge'] at hx
      simp [Element.children] at hx

theorem Added.unshared (h : t.Added t' [o] [d]) (ht : t.Unshared) : t'.Unshared := by
  have hs : t'.Stands [] o := h.stands o (by simp)
  refine ⟨fun holder x hx => ?_, fun holder => ?_, fun holder holder' x hx hx' => ?_⟩
  · rcases h.held_cases ht hx with ⟨_, hlt⟩ | ⟨_, _, hlt⟩
    · exact Nat.lt_of_lt_of_le hlt h.changes.size_le
    · exact hlt
  · rcases Nat.lt_or_ge holder t.size with hlt | hge
    · rw [h.changes.element_eq holder hlt (by simp)]
      exact ht.once holder
    · rcases Nat.lt_or_ge holder t'.size with hlt' | hge'
      · exact hs.spans.nodup_children hs.nodup (h.mem_ids_iff.mpr ⟨hge, hlt'⟩)
      · rw [element_of_size_le hge']
        exact List.nodup_nil
  · have hparent : ∀ p, (p, x) ∈ o.edges → t'.parent x = some p := fun p he => by
      simpa using hs.linked (p, x) he
    rcases h.held_cases ht hx with ⟨hx, hlt⟩ | ⟨he, hge, _⟩ <;>
      rcases h.held_cases ht hx' with ⟨hx', hlt'⟩ | ⟨he', hge', _⟩
    · exact ht.single holder holder' x hx hx'
    · exact absurd hlt (Nat.not_lt.mpr hge')
    · exact absurd hlt' (Nat.not_lt.mpr hge)
    · exact Option.some.inj ((hparent holder he).symm.trans (hparent holder' he'))

/-- An added document shares no node with what was there, and none holds its top. -/
theorem Added.holdsNew (h : t.Added t' [o] [d]) (ht : t.Unshared) :
    t.HoldsNew t' ∧ t.size ≤ o.id ∧ ¬ t'.Held o.id := by
  have hs : t'.Stands [] o := h.stands o (by simp)
  have hge : t.size ≤ o.id := (h.mem_ids_iff.mp o.id_mem_ids).1
  refine ⟨⟨h.changes.size_le, h.unshared ht, fun x hx ⟨holder, hheld⟩ => ?_⟩, hge,
    fun ⟨holder, hheld⟩ => ?_⟩
  · rcases h.held_cases ht hheld with ⟨hheld, _⟩ | ⟨_, hle, _⟩
    · exact ⟨holder, hheld⟩
    · exact absurd hx (Nat.not_lt.mpr hle)
  · rcases h.held_cases ht hheld with ⟨_, hlt⟩ | ⟨he, _⟩
    · exact absurd hlt (Nat.not_lt.mpr hge)
    · exact Outline.held_ne_id hs.nodup he rfl

end

end WikiHtml.Tree
