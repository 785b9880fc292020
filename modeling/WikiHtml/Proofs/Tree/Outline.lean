-- The part of a tree below a node, as a tree of node numbers: its outline. A node stands well if it
-- has an outline in which no number comes twice and every node that is held has its holder as
-- parent. Changes in one part of a tree leave the outlines of all other parts as they are.
import Mathlib.Data.List.Nodup
import Mathlib.Data.List.Perm.Basic
import Mathlib.Logic.Relation
import WikiHtml.Proofs.Element.Children
import WikiHtml.Proofs.Tree.Nodes

namespace WikiHtml

/-! ## Outlines -/

/-- A node with the nodes below it, given by their numbers. -/
inductive Outline where
  | node (id : NodeId) (held : List Outline)

namespace Outline

/-- The number at the top. -/
def id : Outline → NodeId
  | .node id _ => id

/-- The outlines of the nodes that the one at the top holds. -/
def held : Outline → List Outline
  | .node _ held => held

/-- All numbers, from the top down. -/
def ids : Outline → List NodeId
  | .node id held => id :: held.flatMap ids

/-- All numbers, each behind those below it. -/
def postorder : Outline → List NodeId
  | .node id held => held.flatMap postorder ++ [id]

/-- Each holder with each node that it holds. -/
def edges : Outline → List (NodeId × NodeId)
  | .node id held => held.map (fun o => (id, o.id)) ++ held.flatMap edges

@[simp] theorem id_node (id : NodeId) (held : List Outline) : (node id held).id = id := rfl

theorem ids_node (id : NodeId) (held : List Outline) :
    (node id held).ids = id :: held.flatMap ids := by rw [ids]

theorem postorder_node (id : NodeId) (held : List Outline) :
    (node id held).postorder = held.flatMap postorder ++ [id] := by rw [postorder]

theorem edges_node (id : NodeId) (held : List Outline) :
    (node id held).edges = held.map (fun o => (id, o.id)) ++ held.flatMap edges := by rw [edges]

/-- What holds of an outline if it holds of those below it holds of every outline. -/
@[elab_as_elim]
theorem induct {P : Outline → Prop}
    (node : ∀ id held, (∀ o ∈ held, P o) → P (.node id held)) : ∀ o, P o
  | .node id held => node id held fun o _ => induct node o

theorem postorder_perm (o : Outline) : o.postorder.Perm o.ids := by
  induction o using induct with
  | node id held ih =>
    rw [postorder_node, ids_node]
    exact (List.perm_append_singleton id _).trans ((List.Perm.flatMap_left held ih).cons id)

theorem id_mem_ids (o : Outline) : o.id ∈ o.ids := by
  cases o with
  | node id held => simp [ids_node]

theorem mem_ids_of_held {o c : Outline} {x : NodeId} (hc : c ∈ o.held) (hx : x ∈ c.ids) :
    x ∈ o.ids := by
  cases o with
  | node id held =>
    rw [ids_node]
    exact List.mem_cons_of_mem _ (List.mem_flatMap.mpr ⟨c, hc, hx⟩)

theorem length_ids_le {held : List Outline} {c : Outline} (hc : c ∈ held) :
    c.ids.length ≤ (held.flatMap ids).length :=
  (List.sublist_flatten_of_mem (List.mem_map_of_mem hc)).length_le

theorem mem_held_of_edge {o : Outline} {e : NodeId × NodeId} (h : e ∈ o.edges) :
    e.2 ∈ o.held.flatMap ids := by
  induction o using induct with
  | node id held ih =>
    rw [edges_node, List.mem_append, List.mem_map, List.mem_flatMap] at h
    rcases h with ⟨c, hc, rfl⟩ | ⟨c, hc, he⟩
    · exact List.mem_flatMap.mpr ⟨c, hc, c.id_mem_ids⟩
    · obtain ⟨d, hd, hx⟩ := List.mem_flatMap.mp (ih c hc he)
      exact List.mem_flatMap.mpr ⟨c, hc, mem_ids_of_held hd hx⟩

theorem mem_ids_of_edge {o : Outline} {e : NodeId × NodeId} (h : e ∈ o.edges) : e.2 ∈ o.ids := by
  obtain ⟨c, hc, hx⟩ := List.mem_flatMap.mp (mem_held_of_edge h)
  exact mem_ids_of_held hc hx

/-- Every number but the one at the top is held. -/
theorem exists_edge {o : Outline} {x : NodeId} (h : x ∈ o.ids) :
    x = o.id ∨ ∃ p ∈ o.ids, (p, x) ∈ o.edges := by
  induction o using induct with
  | node id held ih =>
    rw [ids_node, List.mem_cons, List.mem_flatMap] at h
    rcases h with rfl | ⟨c, hc, hx⟩
    · exact Or.inl rfl
    · refine Or.inr ?_
      rw [edges_node]
      rcases ih c hc hx with rfl | ⟨p, hp, he⟩
      · exact ⟨id, by rw [ids_node]; exact List.mem_cons_self,
          List.mem_append_left _ (List.mem_map.mpr ⟨c, hc, rfl⟩)⟩
      · exact ⟨p, mem_ids_of_held (o := node id held) hc hp,
          List.mem_append_right _ (List.mem_flatMap.mpr ⟨c, hc, he⟩)⟩

/-- The node at the top is held by none below it. -/
theorem held_ne_id {o : Outline} (hn : o.ids.Nodup) {e : NodeId × NodeId} (h : e ∈ o.edges) :
    e.2 ≠ o.id := by
  intro heq
  have hm := mem_held_of_edge h
  cases o with
  | node id held =>
    rw [ids_node, List.nodup_cons] at hn
    rw [heq] at hm
    exact hn.1 hm

end Outline

/-! ## Trees that grow -/

/-- An element that came from another one by putting other elements in. -/
def Element.Reshaped {α β : Type} (e : Element α) (e' : Element β) : Prop :=
  ∃ values, e.Takes values.length ∧ e' = e.refill values

theorem Element.Reshaped.refl {α : Type} (e : Element α) : e.Reshaped e :=
  ⟨e.children, Or.inr rfl, e.refill_children.symm⟩

theorem Element.Reshaped.trans {α β γ : Type} {e : Element α} {e' : Element β} {e'' : Element γ}
    (h : e.Reshaped e') (h' : e'.Reshaped e'') : e.Reshaped e'' := by
  obtain ⟨vs, ht, rfl⟩ := h
  obtain ⟨ws, ht', rfl⟩ := h'
  refine ⟨ws, ?_, e.refill_refill vs ws ht⟩
  rcases ht' with hl | hl
  · exact Or.inl (by simpa using hl)
  · rw [e.children_refill vs ht] at hl
    exact hl ▸ ht

namespace Tree

/-- Nodes were added, and those that were there keep their kind, their own fields and their span. -/
structure Grows (t t' : Tree) : Prop where
  size_le : t.size ≤ t'.size
  span_eq : ∀ x < t.size, t'.span x = t.span x
  reshaped : ∀ x < t.size, (t.element x).Reshaped (t'.element x)

theorem Grows.refl (t : Tree) : t.Grows t :=
  ⟨Nat.le_refl _, fun _ _ => rfl, fun _ _ => .refl _⟩

theorem Grows.trans {t t' t'' : Tree} (h : t.Grows t') (h' : t'.Grows t'') : t.Grows t'' where
  size_le := Nat.le_trans h.size_le h'.size_le
  span_eq x hx := by rw [h'.span_eq x (Nat.lt_of_lt_of_le hx h.size_le), h.span_eq x hx]
  reshaped x hx := (h.reshaped x hx).trans (h'.reshaped x (Nat.lt_of_lt_of_le hx h.size_le))

theorem Grows.isList_eq {t t' : Tree} (h : t.Grows t') {x : NodeId} (hx : x < t.size) :
    (t'.element x).isList = (t.element x).isList := by
  obtain ⟨values, _, he⟩ := h.reshaped x hx
  rw [he, Element.isList_refill]

/-- The tree grew, and of the nodes that were there only those named changed what they hold or what
holds them. -/
structure Changes (t t' : Tree) (own : List NodeId) : Prop extends Grows t t' where
  element_eq : ∀ x < t.size, x ∉ own → t'.element x = t.element x
  parent_eq : ∀ x < t.size, x ∉ own → t'.parent x = t.parent x

theorem Changes.refl (t : Tree) (own : List NodeId) : t.Changes t own :=
  ⟨.refl t, fun _ _ _ => rfl, fun _ _ _ => rfl⟩

/-- A later change may also name nodes that an earlier one added. -/
theorem Changes.trans {t t' t'' : Tree} {own own' : List NodeId} (h : t.Changes t' own)
    (h' : t'.Changes t'' own') (hown : ∀ x ∈ own', x ∈ own ∨ t.size ≤ x) : t.Changes t'' own where
  toGrows := h.toGrows.trans h'.toGrows
  element_eq x hx hn := by
    have hn' : x ∉ own' := fun hm => (hown x hm).elim hn (Nat.not_le.mpr hx)
    rw [h'.element_eq x (Nat.lt_of_lt_of_le hx h.size_le) hn', h.element_eq x hx hn]
  parent_eq x hx hn := by
    have hn' : x ∉ own' := fun hm => (hown x hm).elim hn (Nat.not_le.mpr hx)
    rw [h'.parent_eq x (Nat.lt_of_lt_of_le hx h.size_le) hn', h.parent_eq x hx hn]

theorem Changes.mono {t t' : Tree} {own own' : List NodeId} (h : t.Changes t' own)
    (hown : ∀ x ∈ own, x ∈ own' ∨ t.size ≤ x) : t.Changes t' own' :=
  (Changes.refl t own').trans h hown

/-! ## Outlines in a tree -/

/-- The tree holds the nodes of an outline as the outline says. -/
inductive Spans (t : Tree) : Outline → Prop
  | node {id : NodeId} {held : List Outline} (inside : id < t.size)
      (holds : (t.element id).children = held.map Outline.id)
      (rest : ∀ o ∈ held, Spans t o) : Spans t (.node id held)

theorem Spans.inside {t : Tree} {o : Outline} (h : t.Spans o) : o.id < t.size := by
  cases h with
  | node inside holds rest => exact inside

theorem Spans.children {t : Tree} {id : NodeId} {held : List Outline}
    (h : t.Spans (.node id held)) : (t.element id).children = held.map Outline.id := by
  cases h with
  | node inside holds rest => exact holds

theorem Spans.held {t : Tree} {id : NodeId} {held : List Outline} (h : t.Spans (.node id held)) :
    ∀ o ∈ held, t.Spans o := by
  cases h with
  | node inside holds rest => exact rest

theorem Spans.lt_size {t : Tree} {o : Outline} (h : t.Spans o) : ∀ x ∈ o.ids, x < t.size := by
  induction h with
  | @node id held inside holds rest ih =>
    intro x hx
    rw [Outline.ids_node, List.mem_cons, List.mem_flatMap] at hx
    rcases hx with rfl | ⟨c, hc, hx⟩
    · exact inside
    · exact ih c hc x hx

/-- An outline stays while its nodes hold the same ones. -/
theorem Spans.congr {t t' : Tree} {o : Outline} (h : t.Spans o) (hs : t.size ≤ t'.size)
    (he : ∀ x ∈ o.ids, t'.element x = t.element x) : t'.Spans o := by
  induction h with
  | @node id held inside holds rest ih =>
    refine .node (Nat.lt_of_lt_of_le inside hs) ?_ ?_
    · rw [he id (by simp [Outline.ids_node]), holds]
    · intro c hc
      exact ih c hc fun x hx => he x (Outline.mem_ids_of_held (o := .node id held) hc hx)

/-- One comes from a node to the other by going down to held ones. -/
def Reaches (t : Tree) : NodeId → NodeId → Prop :=
  Relation.ReflTransGen fun h x => x ∈ (t.element h).children

theorem Spans.edge_iff {t : Tree} {o : Outline} (h : t.Spans o) {p x : NodeId} :
    (p, x) ∈ o.edges ↔ p ∈ o.ids ∧ x ∈ (t.element p).children := by
  induction h with
  | @node id held inside holds rest ih =>
    rw [Outline.edges_node, List.mem_append, List.mem_map, List.mem_flatMap, Outline.ids_node,
      List.mem_cons, List.mem_flatMap]
    constructor
    · rintro (⟨c, hc, he⟩ | ⟨c, hc, he⟩)
      · obtain ⟨rfl, rfl⟩ := Prod.mk.inj he
        exact ⟨Or.inl rfl, by rw [holds]; exact List.mem_map_of_mem hc⟩
      · obtain ⟨hm, hx⟩ := (ih c hc).mp he
        exact ⟨Or.inr ⟨c, hc, hm⟩, hx⟩
    · rintro ⟨rfl | ⟨c, hc, hm⟩, hx⟩
      · rw [holds] at hx
        obtain ⟨c, hc, rfl⟩ := List.mem_map.mp hx
        exact Or.inl ⟨c, hc, rfl⟩
      · exact Or.inr ⟨c, hc, (ih c hc).mpr ⟨hm, hx⟩⟩

/-- What is reached from the top of an outline are its nodes. -/
theorem Spans.mem_of_reaches {t : Tree} {o : Outline} (h : t.Spans o) {x : NodeId}
    (hx : t.Reaches o.id x) : x ∈ o.ids := by
  induction hx with
  | refl => exact o.id_mem_ids
  | tail _ hstep ih => exact Outline.mem_ids_of_edge (h.edge_iff.mpr ⟨ih, hstep⟩)

/-- All nodes of an outline are reached from its top. -/
theorem Spans.reaches {t : Tree} {o : Outline} (h : t.Spans o) {x : NodeId} (hx : x ∈ o.ids) :
    t.Reaches o.id x := by
  induction h with
  | @node id held inside holds rest ih =>
    rw [Outline.ids_node, List.mem_cons, List.mem_flatMap] at hx
    rcases hx with rfl | ⟨c, hc, hx⟩
    · exact .refl
    · have hstep : c.id ∈ (t.element id).children := by
        rw [holds]
        exact List.mem_map_of_mem hc
      exact .head hstep (ih c hc hx)

/-- An outline in good order: no number comes twice, and the parent of every node below the top is
the one that holds it, but the nodes in `stray` have no parent. -/
structure Stands (t : Tree) (stray : List NodeId) (o : Outline) : Prop where
  spans : t.Spans o
  nodup : o.ids.Nodup
  linked : ∀ e ∈ o.edges, t.parent e.2 = if e.2 ∈ stray then none else some e.1

/-- The tree below a node: it is finite, no node of it is held twice, and the parent of every node
that is held is the node that holds it. -/
def WellFormed (t : Tree) (id : NodeId) : Prop :=
  ∃ o : Outline, o.id = id ∧ t.Stands [] o

theorem Stands.held {t : Tree} {stray : List NodeId} {id : NodeId} {held : List Outline}
    (h : t.Stands stray (.node id held)) {c : Outline} (hc : c ∈ held) : t.Stands stray c where
  spans := h.spans.held c hc
  nodup := by
    have := h.nodup
    rw [Outline.ids_node, List.nodup_cons, List.nodup_flatMap] at this
    exact this.2.1 c hc
  linked e he := h.linked e (by
    rw [Outline.edges_node]
    exact List.mem_append_right _ (List.mem_flatMap.mpr ⟨c, hc, he⟩))

theorem Stands.parent_held {t : Tree} {stray : List NodeId} {id : NodeId} {held : List Outline}
    (h : t.Stands stray (.node id held)) {c : Outline} (hc : c ∈ held) :
    t.parent c.id = if c.id ∈ stray then none else some id :=
  h.linked (id, c.id) (by
    rw [Outline.edges_node]
    exact List.mem_append_left _ (List.mem_map.mpr ⟨c, hc, rfl⟩))

/-- An outline in good order stays so while none of its nodes changes, and as long as the same
nodes of it are stray. -/
theorem Stands.congr {t t' : Tree} {stray stray' own : List NodeId} {o : Outline}
    (h : t.Stands stray o) (hc : t.Changes t' own) (hd : ∀ x ∈ o.ids, x ∉ own)
    (hs : ∀ x ∈ o.ids, x ∈ stray' ↔ x ∈ stray) : t'.Stands stray' o where
  spans := h.spans.congr hc.size_le fun x hx => hc.element_eq x (h.spans.lt_size x hx) (hd x hx)
  nodup := h.nodup
  linked e he := by
    have hm := Outline.mem_ids_of_edge he
    rw [hc.parent_eq _ (h.spans.lt_size _ hm) (hd _ hm), h.linked e he]
    simp only [hs _ hm]

/-! ## What is above a node -/

/-- Going up from a node by the parents, one passes the nodes of the list; the parent of the last
one is `top`. -/
def Chain (t : Tree) : NodeId → List NodeId → Option NodeId → Prop
  | id, [], top => t.parent id = top
  | id, h :: hs, top => t.parent id = some h ∧ t.Chain h hs top

theorem Chain.congr {t t' : Tree} {id : NodeId} {above : List NodeId} {top : Option NodeId}
    (h : t.Chain id above top) (hp : ∀ x ∈ id :: above, t'.parent x = t.parent x) :
    t'.Chain id above top := by
  induction above generalizing id with
  | nil => exact (hp id (by simp)).trans h
  | cons a as ih =>
    exact ⟨(hp id (by simp)).trans h.1, ih h.2 fun x hx => hp x (List.mem_cons_of_mem _ hx)⟩

/-- A node that gets the parent of another one comes below the same nodes. -/
theorem Chain.move {t t' : Tree} {id id' : NodeId} {above : List NodeId} {top : Option NodeId}
    (h : t.Chain id above top) (hid : t'.parent id' = t.parent id)
    (hp : ∀ x ∈ above, t'.parent x = t.parent x) : t'.Chain id' above top := by
  cases above with
  | nil => exact hid.trans h
  | cons a as => exact ⟨hid.trans h.1, h.2.congr hp⟩

end Tree

end WikiHtml
