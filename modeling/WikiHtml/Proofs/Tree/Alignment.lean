-- A document that is added in two ways gives trees that differ in the numbers of the new nodes only.
-- The numbers of the nodes from the top down tell which node is which.
import Mathlib.Data.List.Forall2
import Mathlib.Data.List.GetD
import Mathlib.Data.List.Nodup
import WikiHtml.Proofs.Tree.Documents
import WikiHtml.Proofs.Tree.Inside
import WikiHtml.Proofs.Tree.Renumbering

namespace WikiHtml

/-- A node stays as it is where its numbers do. -/
theorem Node.Below.renumber_self {bound : Nat} {n : Node} (h : n.Below bound)
    {f : NodeId → NodeId} (hf : ∀ x < bound, f x = x) : n.renumber f = n := by
  obtain ⟨e, span, parent⟩ := n
  have hparent : parent.map f = parent := by
    cases parent with
    | none => rfl
    | some p => rw [Option.map_some, hf p (h.parent p rfl)]
  rw [Node.renumber, Element.map_self fun c hc => hf c (h.held c hc), hparent]

/-! ## Numbers side by side -/

section

variable {xs ys : List NodeId} {x : NodeId}

/-- The number at the same place of the other list; a number that is not in the list stays. -/
def counterpart (xs ys : List NodeId) (x : NodeId) : NodeId :=
  ys.getD (xs.idxOf x) x

theorem counterpart_of_not_mem (hl : xs.length = ys.length) (h : x ∉ xs) :
    counterpart xs ys x = x := by
  rw [counterpart, List.idxOf_eq_length_iff.mpr h, List.getD_eq_default _ _ (Nat.le_of_eq hl.symm)]

theorem counterpart_getElem (hn : xs.Nodup) (hl : xs.length = ys.length) {k : Nat}
    (hk : k < xs.length) : counterpart xs ys xs[k] = ys[k] := by
  rw [counterpart, hn.idxOf_getElem, List.getD_eq_getElem _ _ (hl ▸ hk)]

theorem map_counterpart (hn : xs.Nodup) (hl : xs.length = ys.length) :
    xs.map (counterpart xs ys) = ys := by
  refine List.ext_getElem (by rw [List.length_map, hl]) fun k hk _ => ?_
  rw [List.length_map] at hk
  rw [List.getElem_map, counterpart_getElem hn hl hk]

theorem counterpart_back (hx : xs.Nodup) (h : xs.Perm ys) (x : NodeId) :
    counterpart ys xs (counterpart xs ys x) = x := by
  have hl := h.length_eq
  by_cases hm : x ∈ xs
  · obtain ⟨k, hk, rfl⟩ := List.mem_iff_getElem.mp hm
    rw [counterpart_getElem hx hl hk, counterpart_getElem (h.nodup hx) hl.symm (hl ▸ hk)]
  · rw [counterpart_of_not_mem hl hm, counterpart_of_not_mem hl.symm fun hy => hm (h.mem_iff.mpr hy)]

/-- The numbers of a list, changed for those of another list with the same numbers. -/
def pairing (hx : xs.Nodup) (h : xs.Perm ys) : Equiv.Perm NodeId where
  toFun := counterpart xs ys
  invFun := counterpart ys xs
  left_inv := counterpart_back hx h
  right_inv := counterpart_back (h.nodup hx) h.symm

theorem exists_pairing (hx : xs.Nodup) (h : xs.Perm ys) :
    ∃ f : Equiv.Perm NodeId, xs.map f = ys ∧ ∀ x, x ∉ xs → f x = x :=
  ⟨pairing hx h, map_counterpart hx h.length_eq, fun _ => counterpart_of_not_mem h.length_eq⟩

end

/-! ## Outlines of the same document -/

theorem Outline.ids_eq_cons (o : Outline) : o.ids = o.id :: o.held.flatMap Outline.ids := by
  cases o with
  | node id held => rw [ids_node, id_node, Outline.held]

theorem Outline.map_id_of_ids {f : NodeId → NodeId} {o o' : Outline} (h : o.ids.map f = o'.ids) :
    f o.id = o'.id := by
  rw [o.ids_eq_cons, o'.ids_eq_cons, List.map_cons, List.cons.injEq] at h
  exact h.1

theorem length_flatMap_ids {os os' : List Outline}
    (h : List.Forall₂ (fun c c' => c.ids.length = c'.ids.length) os os') :
    (os.flatMap Outline.ids).length = (os'.flatMap Outline.ids).length := by
  induction h with
  | nil => rfl
  | cons hfirst _ ih =>
    rw [List.flatMap_cons, List.flatMap_cons, List.length_append, List.length_append, hfirst, ih]

/-- Outlines side by side are renumbered one by one. -/
theorem forall₂_ids {f : NodeId → NodeId} {os os' : List Outline}
    (hl : List.Forall₂ (fun c c' => c.ids.length = c'.ids.length) os os')
    (hf : (os.flatMap Outline.ids).map f = os'.flatMap Outline.ids) :
    List.Forall₂ (fun c c' => c.ids.map f = c'.ids) os os' := by
  induction hl with
  | nil => exact .nil
  | cons hfirst _ ih =>
    rw [List.flatMap_cons, List.flatMap_cons, List.map_append] at hf
    obtain ⟨hc, hrest⟩ := List.append_inj hf (by rw [List.length_map, hfirst])
    exact .cons hc (ih hrest)

theorem forall₂_mem {α β : Type} {R : α → β → Prop} {xs : List α} {ys : List β}
    (h : List.Forall₂ R xs ys) : List.Forall₂ (fun x y => x ∈ xs ∧ y ∈ ys ∧ R x y) xs ys := by
  refine List.forall₂_iff_zip.mpr ⟨h.length_eq, fun hz => ?_⟩
  obtain ⟨hx, hy⟩ := List.of_mem_zip hz
  exact ⟨hx, hy, List.forall₂_zip h hz⟩

namespace Tree

section

variable {t u : Tree}

/-- Two nodes that show the same document hold what shows the same documents. -/
theorem forall₂_shown {id id' : NodeId} {held held' : List Outline} (hs : t.Spans (.node id held))
    (hn : (Outline.node id held).ids.Nodup) (hs' : u.Spans (.node id' held'))
    (hn' : (Outline.node id' held').ids.Nodup) (hd : t.shown id = u.shown id') :
    (∀ ids : List NodeId, (t.element id).refill ids = (u.element id').refill ids) ∧
      t.span id = u.span id' ∧
      List.Forall₂ (fun c c' => t.shown c.id = u.shown c'.id) held held' := by
  rw [shown_node hs hn, shown_node hs' hn', Document.node.injEq] at hd
  obtain ⟨hd, hspan⟩ := hd
  have htakes : (t.element id).Takes (held.map fun c => t.shown c.id).length :=
    Or.inr (by rw [hs.children, List.length_map, List.length_map])
  have htakes' : (u.element id').Takes (held'.map fun c => u.shown c.id).length :=
    Or.inr (by rw [hs'.children, List.length_map, List.length_map])
  refine ⟨fun ids => ?_, hspan, ?_⟩
  · rw [← Element.refill_refill _ _ ids htakes, hd, Element.refill_refill _ _ ids htakes']
  · have hheld := congrArg Element.children hd
    rw [Element.children_refill _ _ htakes, Element.children_refill _ _ htakes'] at hheld
    rw [← List.forall₂_eq_eq_eq, List.forall₂_map_left_iff, List.forall₂_map_right_iff] at hheld
    exact hheld

/-- Outlines that show the same document have as many nodes. If the nodes are renumbered in their
order, so are the elements. -/
theorem element_of_shown {o o' : Outline} (hs : t.Spans o) (hn : o.ids.Nodup) (hs' : u.Spans o')
    (hn' : o'.ids.Nodup) (hd : t.shown o.id = u.shown o'.id) :
    o.ids.length = o'.ids.length ∧ ∀ f : NodeId → NodeId, o.ids.map f = o'.ids →
      ∀ x ∈ o.ids, u.element (f x) = (t.element x).map f ∧ u.span (f x) = t.span x := by
  induction o using Outline.induct generalizing o' with
  | node id held ih =>
    obtain ⟨id', held'⟩ := o'
    obtain ⟨hrefill, hspan, hheld⟩ := forall₂_shown hs hn hs' hn' hd
    have hboth : List.Forall₂ (fun c c' => c.ids.length = c'.ids.length ∧
        ∀ f : NodeId → NodeId, c.ids.map f = c'.ids →
          ∀ x ∈ c.ids, u.element (f x) = (t.element x).map f ∧ u.span (f x) = t.span x)
        held held' := by
      refine (forall₂_mem hheld).imp fun c c' ⟨hc, hc', hshown⟩ => ?_
      exact ih c hc (hs.held c hc) (Spans.nodup_held hn hc) (hs'.held c' hc')
        (Spans.nodup_held hn' hc') hshown
    have hlengths := hboth.imp fun _ _ h => h.1
    rw [Outline.ids_node, Outline.ids_node]
    refine ⟨?_, fun f hf x hx => ?_⟩
    · rw [List.length_cons, List.length_cons, length_flatMap_ids hlengths]
    · rw [List.map_cons, List.cons.injEq] at hf
      obtain ⟨hid, hf⟩ := hf
      have hpairs := forall₂_ids hlengths hf
      rcases List.mem_cons.mp hx with rfl | hx
      · have hchildren : (t.element x).children.map f = (u.element id').children := by
          rw [hs.children, hs'.children, List.map_map, ← List.forall₂_eq_eq_eq,
            List.forall₂_map_left_iff, List.forall₂_map_right_iff]
          exact hpairs.imp fun _ _ => Outline.map_id_of_ids
        rw [hid, Element.map_eq_refill, hchildren, hrefill, Element.refill_children]
        exact ⟨rfl, hspan.symm⟩
      · obtain ⟨c, hc, hx⟩ := List.mem_flatMap.mp hx
        obtain ⟨_, _, hall⟩ := Element.exists_of_forall₂
          (List.Forall₂.mp (fun _ _ hids h => h.2 f hids) hpairs hboth) hc
        exact hall x hx

end

theorem Renumbered.inside {f : Equiv.Perm NodeId} {t u : Tree} (h : Renumbered f t u)
    (ht : t.Inside) : u.Inside where
  below y n hn := by
    obtain ⟨x, rfl⟩ := f.surjective y
    rw [h.nodes_eq] at hn
    obtain ⟨m, hm, rfl⟩ := Option.map_eq_some_iff.mp hn
    have hbelow := ht.below x m hm
    refine ⟨fun c hc => ?_, fun p hp => ?_⟩
    · rw [Node.renumber, Element.children_map] at hc
      obtain ⟨c, hm, rfl⟩ := List.mem_map.mp hc
      exact h.lt_size_iff.mpr (hbelow.held c hm)
    · obtain ⟨p, hm, rfl⟩ := Option.map_eq_some_iff.mp hp
      exact h.lt_size_iff.mpr (hbelow.parent p hm)
  root y hy := by
    rw [h.root_eq] at hy
    obtain ⟨x, hx, rfl⟩ := Option.map_eq_some_iff.mp hy
    exact h.lt_size_iff.mpr (ht.root x hx)

/-! ## Documents that are added in two ways -/

theorem Added.ids_perm {t u : Tree} {o : Outline} {d : Document} (h : t.Added u [o] [d]) :
    o.ids.Perm (List.range' t.size (u.size - t.size)) := by
  have hs : u.Stands [] o := h.stands o (by simp)
  have hle := h.changes.size_le
  refine (List.perm_ext_iff_of_nodup hs.nodup List.nodup_range').mpr fun x => ?_
  rw [h.mem_ids_iff, List.mem_range'_1, Nat.add_sub_of_le hle]

/-- Both ways need as many new nodes. -/
theorem Added.size_eq {t u v : Tree} {o o' : Outline} {d : Document} (h : t.Added u [o] [d])
    (h' : t.Added v [o'] [d]) (hlength : o.ids.length = o'.ids.length) : v.size = u.size := by
  have hcount := h.ids_perm.length_eq
  have hcount' := h'.ids_perm.length_eq
  have hle := h.changes.size_le
  have hle' := h'.changes.size_le
  rw [List.length_range'] at hcount hcount'
  omega

theorem Added.shown_eq {t u : Tree} {o : Outline} {d : Document} (h : t.Added u [o] [d]) :
    u.shown o.id = d :=
  (List.cons.inj h.shown).1

theorem Changes.nodes_eq {t u : Tree} (h : t.Changes u []) {x : NodeId} (hx : x < t.size) :
    u.nodes[x]? = t.nodes[x]? := by
  rw [getElem?_nodes hx, getElem?_nodes (Nat.lt_of_lt_of_le hx h.size_le),
    h.element_eq x hx List.not_mem_nil, h.span_eq x hx, h.parent_eq x hx List.not_mem_nil]

/-- The parents of new nodes are the ones that hold them, so they are renumbered as the elements are. -/
theorem Added.parent_renumbered {t u v : Tree} {o o' : Outline} {d : Document}
    (h : t.Added u [o] [d]) (h' : t.Added v [o'] [d]) {f : NodeId → NodeId}
    (hids : o.ids.map f = o'.ids)
    (hf : ∀ x ∈ o.ids, v.element (f x) = (u.element x).map f) {x : NodeId} (hx : x ∈ o.ids) :
    v.parent (f x) = (u.parent x).map f := by
  have hs : u.Stands [] o := h.stands o (by simp)
  have hs' : v.Stands [] o' := h'.stands o' (by simp)
  rcases Outline.exists_edge hx with rfl | ⟨p, hp, he⟩
  · rw [Outline.map_id_of_ids hids, h.loose o (by simp), h'.loose o' (by simp)]
    rfl
  · have hchild : f x ∈ (v.element (f p)).children := by
      rw [hf p hp, Element.children_map]
      exact List.mem_map_of_mem (hs.spans.edge_iff.mp he).2
    have hp' : f p ∈ o'.ids := hids ▸ List.mem_map_of_mem hp
    have hlinked := hs.linked _ he
    have hlinked' := hs'.linked _ (hs'.spans.edge_iff.mpr ⟨hp', hchild⟩)
    rw [if_neg List.not_mem_nil] at hlinked hlinked'
    rw [hlinked, hlinked']
    rfl

/-- The same document, added to a tree in two ways: the trees after that differ only in the numbers of
the new nodes. -/
theorem Added.renumbered {t u v : Tree} {o o' : Outline} {d : Document} (ht : t.Inside)
    (h : t.Added u [o] [d]) (h' : t.Added v [o'] [d]) :
    ∃ f : Equiv.Perm NodeId, Renumbered f u v ∧ (∀ x < t.size, f x = x) ∧ f o.id = o'.id := by
  have hs : u.Stands [] o := h.stands o (by simp)
  have hs' : v.Stands [] o' := h'.stands o' (by simp)
  have hshown : u.shown o.id = v.shown o'.id := by rw [h.shown_eq, h'.shown_eq]
  obtain ⟨hlength, hsame⟩ := element_of_shown hs.spans hs.nodup hs'.spans hs'.nodup hshown
  have hsize : v.size = u.size := h.size_eq h' hlength
  have hperm : o.ids.Perm o'.ids := by
    have hrange := h'.ids_perm
    rw [hsize] at hrange
    exact h.ids_perm.trans hrange.symm
  obtain ⟨f, hids, hfixed⟩ := exists_pairing hs.nodup hperm
  have hold : ∀ x < t.size, f x = x := fun x hx =>
    hfixed x fun hm => Nat.not_le.mpr hx (h.mem_ids_iff.mp hm).1
  have hnew : ∀ x : Nat, u.size ≤ x → f x = x := fun x hx =>
    hfixed x fun hm => Nat.not_le.mpr (h.mem_ids_iff.mp hm).2 hx
  refine ⟨f, ⟨fun x => ?_, ?_, hsize, hnew⟩, hold, Outline.map_id_of_ids hids⟩
  · rcases Nat.lt_or_ge x t.size with hlt | hge
    · rw [hold x hlt, h.changes.nodes_eq hlt, h'.changes.nodes_eq hlt, getElem?_nodes hlt,
        Option.map_some, (ht.below x _ (getElem?_nodes hlt)).renumber_self hold]
    rcases Nat.lt_or_ge x u.size with hlt' | hge'
    · have hx : x ∈ o.ids := h.mem_ids_iff.mpr ⟨hge, hlt'⟩
      have hx' : f x < v.size := hs'.spans.lt_size _ (hids ▸ List.mem_map_of_mem hx)
      obtain ⟨helement, hspan⟩ := hsame f hids x hx
      rw [getElem?_nodes hlt', getElem?_nodes hx', helement, hspan,
        h.parent_renumbered h' hids (fun y hy => (hsame f hids y hy).1) hx]
      rfl
    · rw [hnew x hge', Array.getElem?_eq_none (show v.size ≤ x from hsize ▸ hge'),
        Array.getElem?_eq_none hge']
      rfl
  · rw [h'.root_eq, h.root_eq]
    cases hroot : t.root with
    | none => rfl
    | some root => rw [Option.map_some, hold root (ht.root root hroot)]

end Tree

end WikiHtml
