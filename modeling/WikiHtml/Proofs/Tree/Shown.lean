-- What stands below a node, as a document. It is found within the bound that the tree sets itself,
-- it is put together from what stands below the held nodes, and it stays as it is while the nodes
-- below do.
import Mathlib.Data.List.Perm.Subperm
import WikiHtml.Proofs.Tree.Outline

namespace WikiHtml.Tree

/-- The document below a node, or an empty list if it cannot be written down. -/
def shown (t : Tree) (id : NodeId) : Document :=
  (t.document? id).getD (.node (.list []) none)

theorem documentWithin_succ (t : Tree) (bound : Nat) {id : NodeId} (h : id < t.size) :
    t.documentWithin (bound + 1) id =
      ((t.element id).children.mapM (t.documentWithin bound)).map
        fun values => .node ((t.element id).refill values) (t.span id) := by
  rw [documentWithin, element, span, Array.getElem?_eq_getElem h]
  simp only [Option.bind_eq_bind, Option.bind_some, Element.mapM_eq]
  rcases List.mapM (t.documentWithin bound) (t.nodes[id]).element.children with _ | values <;> rfl

/-! ## The document of an outline -/

/-- The document that a tree holds along an outline. -/
def along (t : Tree) : Outline → Document
  | .node id held => .node ((t.element id).refill (held.map t.along)) (t.span id)

theorem along_node (t : Tree) (id : NodeId) (held : List Outline) :
    t.along (.node id held) = .node ((t.element id).refill (held.map t.along)) (t.span id) := by
  rw [along]

theorem mapM_held {f : NodeId → Option Document} {t : Tree} {held : List Outline}
    (h : ∀ c ∈ held, f c.id = some (t.along c)) :
    (held.map Outline.id).mapM f = some (held.map t.along) := by
  induction held with
  | nil => rfl
  | cons c rest ih =>
    rw [List.map_cons, List.mapM_cons, h c (by simp), ih fun d hd => h d (by simp [hd])]
    rfl

theorem documentWithin_of_spans {t : Tree} {o : Outline} (h : t.Spans o) {bound : Nat}
    (hb : o.ids.length ≤ bound) : t.documentWithin bound o.id = some (t.along o) := by
  induction o using Outline.induct generalizing bound with
  | node id held ih =>
    rw [Outline.ids_node, List.length_cons] at hb
    rcases bound with _ | bound
    · omega
    · have hheld : ∀ c ∈ held, t.documentWithin bound c.id = some (t.along c) := by
        intro c hc
        refine ih c hc (h.held c hc) ?_
        have := Outline.length_ids_le hc
        omega
      have hin : id < t.size := h.inside
      rw [Outline.id_node, documentWithin_succ t bound hin, h.children, mapM_held hheld,
        along_node]
      rfl

/-- There are no more numbers in an outline than nodes in the tree. -/
theorem length_ids_le {t : Tree} {o : Outline} (h : t.Spans o) (hn : o.ids.Nodup) :
    o.ids.length ≤ t.size := by
  have hs : o.ids ⊆ List.range t.size := fun x hx => List.mem_range.mpr (h.lt_size x hx)
  simpa using (List.Nodup.subperm hn hs).length_le

/-! ## What is shown -/

section

variable {t t' : Tree} {o : Outline}

theorem document?_eq_along (h : t.Spans o) (hn : o.ids.Nodup) :
    t.document? o.id = some (t.along o) :=
  documentWithin_of_spans h (length_ids_le h hn)

theorem shown_eq_along (h : t.Spans o) (hn : o.ids.Nodup) : t.shown o.id = t.along o := by
  rw [shown, document?_eq_along h hn, Option.getD_some]

theorem Spans.nodup_held {id : NodeId} {held : List Outline} (hn : (Outline.node id held).ids.Nodup)
    {c : Outline} (hc : c ∈ held) : c.ids.Nodup := by
  rw [Outline.ids_node, List.nodup_cons, List.nodup_flatMap] at hn
  exact hn.2.1 c hc

/-- What is shown at a node is put together from what is shown at the nodes that it holds. -/
theorem shown_node {id : NodeId} {held : List Outline} (h : t.Spans (.node id held))
    (hn : (Outline.node id held).ids.Nodup) :
    t.shown id = .node ((t.element id).refill (held.map fun c => t.shown c.id)) (t.span id) := by
  have hheld : held.map (fun c => t.shown c.id) = held.map t.along :=
    List.map_congr_left fun c hc => shown_eq_along (h.held c hc) (Spans.nodup_held hn hc)
  rw [hheld, ← along_node]
  exact shown_eq_along h hn

theorem along_congr (hs : ∀ x ∈ o.ids, t'.element x = t.element x)
    (hp : ∀ x ∈ o.ids, t'.span x = t.span x) : t'.along o = t.along o := by
  induction o using Outline.induct with
  | node id held ih =>
    have hid : id ∈ (Outline.node id held).ids := by simp [Outline.ids_node]
    have hheld : held.map t'.along = held.map t.along :=
      List.map_congr_left fun c hc => ih c hc
        (fun x hx => hs x (Outline.mem_ids_of_held (o := .node id held) hc hx))
        (fun x hx => hp x (Outline.mem_ids_of_held (o := .node id held) hc hx))
    rw [along_node, along_node, hs id hid, hp id hid, hheld]

/-- What is shown at a node stays while the nodes below hold the same ones. -/
theorem shown_congr (h : t.Spans o) (hn : o.ids.Nodup) (hs : t.size ≤ t'.size)
    (he : ∀ x ∈ o.ids, t'.element x = t.element x) (hp : ∀ x ∈ o.ids, t'.span x = t.span x) :
    t'.shown o.id = t.shown o.id := by
  rw [shown_eq_along h hn, shown_eq_along (h.congr hs he) hn]
  exact along_congr he hp

theorem Changes.shown_eq {own : List NodeId} (hc : t.Changes t' own) (h : t.Spans o)
    (hn : o.ids.Nodup) (hd : ∀ x ∈ o.ids, x ∉ own) : t'.shown o.id = t.shown o.id :=
  shown_congr h hn hc.size_le (fun x hx => hc.element_eq x (h.lt_size x hx) (hd x hx))
    fun x hx => hc.span_eq x (h.lt_size x hx)

end

end WikiHtml.Tree
