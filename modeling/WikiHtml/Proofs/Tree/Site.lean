-- A part of a tree that a walk is about to enter, and a holder of which some places were gone
-- through and others were not. What is put into the places behind leaves those ahead as they were.
import WikiHtml.Proofs.Tree.Planting
import WikiHtml.Proofs.Tree.Refit

namespace WikiHtml

theorem Outline.nodup_split {p : NodeId} {front rest : List Outline} {c : Outline} :
    (Outline.node p (front ++ c :: rest)).ids.Nodup ↔
      (p ∉ front.flatMap ids ∧ p ∉ c.ids ∧ p ∉ rest.flatMap ids) ∧
      ((front.flatMap ids).Nodup ∧ c.ids.Nodup ∧ (rest.flatMap ids).Nodup) ∧
      (front.flatMap ids).Disjoint c.ids ∧ (front.flatMap ids).Disjoint (rest.flatMap ids) ∧
      c.ids.Disjoint (rest.flatMap ids) := by
  rw [ids_node, List.flatMap_append, List.flatMap_cons, List.nodup_cons, List.nodup_append',
    List.nodup_append', List.disjoint_append_right, List.mem_append, List.mem_append]
  tauto

namespace Tree

/-- A part of a tree in good order, with the nodes above it up to one whose parent is `top`. -/
structure Site (t : Tree) (o : Outline) (above : List NodeId) (top : Option NodeId) : Prop where
  stands : t.Stands [] o
  chain : t.Chain o.id above top
  distinct : above.Nodup
  apart : ∀ h ∈ above, h < t.size ∧ h ∉ o.ids

/-- A holder whose places are gone through in their order: those in front are done, and what the
other ones hold is still in good order. -/
structure Midway (t : Tree) (p : NodeId) (front rest : List Outline) (above : List NodeId)
    (top : Option NodeId) : Prop where
  spans : t.Spans (.node p (front ++ rest))
  nodup : (Outline.node p (front ++ rest)).ids.Nodup
  ahead : ∀ c ∈ rest, t.Stands [] c ∧ t.parent c.id = some p
  chain : t.Chain p above top
  distinct : above.Nodup
  apart : ∀ h ∈ above, h < t.size ∧ h ∉ (Outline.node p (front ++ rest)).ids

/-- A part of a tree, given by its nodes, gave way to an outline that is made of them and of new
nodes. -/
structure Regrown (t t' : Tree) (own : List NodeId) (o : Outline) : Prop where
  changes : t.Changes t' own
  spans : t'.Spans o
  nodup : o.ids.Nodup
  within : ∀ x ∈ o.ids, x ∈ own ∨ t.size ≤ x

section

variable {t t' : Tree} {p : NodeId} {front rest : List Outline} {c o : Outline}
  {above : List NodeId} {top : Option NodeId}

/-! ## Before the first place and after the last one -/

theorem Stands.site (h : t.Stands [] o) : t.Site o [] (t.parent o.id) :=
  ⟨h, rfl, List.nodup_nil, by simp⟩

theorem Site.midway {held : List Outline} (h : t.Site (.node p held) above top) :
    t.Midway p [] held above top :=
  ⟨h.stands.spans, h.stands.nodup,
    fun _ hc => ⟨h.stands.held hc, by simpa using h.stands.parent_held hc⟩,
    h.chain, h.distinct, h.apart⟩

theorem Midway.inside (h : t.Midway p front rest above top) : p < t.size :=
  h.spans.inside

/-- The next place can be entered. -/
theorem Midway.site (h : t.Midway p front (c :: rest) above top) :
    t.Site c (p :: above) top where
  stands := (h.ahead c (by simp)).1
  chain := ⟨(h.ahead c (by simp)).2, h.chain⟩
  distinct := by
    refine List.nodup_cons.mpr ⟨fun hm => (h.apart p hm).2 ?_, h.distinct⟩
    simp [Outline.ids_node]
  apart x hx := by
    obtain ⟨⟨_, hpc, _⟩, _⟩ := Outline.nodup_split.mp h.nodup
    rcases List.mem_cons.mp hx with rfl | hx
    · exact ⟨h.inside, hpc⟩
    · refine ⟨(h.apart x hx).1, fun hm => (h.apart x hx).2 ?_⟩
      exact Outline.mem_ids_of_held (o := .node p (front ++ c :: rest)) (by simp [Outline.held]) hm

theorem Midway.child (h : t.Midway p front (c :: rest) above top) :
    (t.element p).children[front.length]? = some c.id := by
  rw [h.spans.children]
  simp

/-! ## From one place to the next -/

/-- The nodes in front and behind a place, and those above, are none of the place. -/
theorem Midway.elsewhere (h : t.Midway p front (c :: rest) above top) {x : NodeId}
    (hx : x ∈ p :: above ∨ x ∈ front.flatMap Outline.ids ∨ x ∈ rest.flatMap Outline.ids) :
    x < t.size ∧ x ∉ c.ids := by
  obtain ⟨_, _, hfc, _, hcr⟩ := Outline.nodup_split.mp h.nodup
  have hlt : ∀ o ∈ front ++ c :: rest, ∀ x ∈ o.ids, x < t.size := fun o ho =>
    (h.spans.held o ho).lt_size
  rcases hx with hx | hx | hx
  · exact h.site.apart x hx
  · refine ⟨?_, fun hm => hfc hx hm⟩
    obtain ⟨o, ho, hxo⟩ := List.mem_flatMap.mp hx
    exact hlt o (by simp [ho]) x hxo
  · refine ⟨?_, fun hm => hcr hm hx⟩
    obtain ⟨o, ho, hxo⟩ := List.mem_flatMap.mp hx
    exact hlt o (by simp [ho]) x hxo

/-- What stays true of a holder while only one place changed: `t'` is the tree in which the place
was refilled or taken out, and `mid` are the outlines that came into it. -/
theorem Midway.next (h : t.Midway p front (c :: rest) above top) {mid : List Outline}
    {own : List NodeId} (hc : t.Changes t' (p :: own))
    (hown : ∀ x ∈ own, x ∈ c.ids ∨ t.size ≤ x)
    (hchildren : (t'.element p).children = (front ++ mid ++ rest).map Outline.id)
    (hparent : t'.parent p = t.parent p)
    (hspans : ∀ o ∈ mid, t'.Spans o) (hnodup : (mid.flatMap Outline.ids).Nodup)
    (hwithin : ∀ x ∈ mid.flatMap Outline.ids, x ∈ c.ids ∨ t.size ≤ x) :
    t'.Midway p (front ++ mid) rest above top := by
  obtain ⟨⟨hpf, hpc, hpr⟩, ⟨hf, _, hr⟩, hfc, hfr, hcr⟩ := Outline.nodup_split.mp h.nodup
  have helse : ∀ x, (x ∈ p :: above ∨ x ∈ front.flatMap Outline.ids ∨
      x ∈ rest.flatMap Outline.ids) → x < t.size ∧ x ∉ own ∧ x ∉ mid.flatMap Outline.ids := by
    intro x hx
    obtain ⟨hlt, hnc⟩ := h.elsewhere hx
    exact ⟨hlt, fun hm => (hown x hm).elim hnc (Nat.not_le.mpr hlt),
      fun hm => (hwithin x hm).elim hnc (Nat.not_le.mpr hlt)⟩
  have hside : ∀ o ∈ front ++ rest, ∀ x ∈ o.ids, x ∉ p :: own := by
    intro o ho x hx hm
    have hx' : x ∈ front.flatMap Outline.ids ∨ x ∈ rest.flatMap Outline.ids := by
      rcases List.mem_append.mp ho with ho | ho
      · exact Or.inl (List.mem_flatMap.mpr ⟨o, ho, hx⟩)
      · exact Or.inr (List.mem_flatMap.mpr ⟨o, ho, hx⟩)
    rcases List.mem_cons.mp hm with rfl | hm
    · exact hx'.elim hpf hpr
    · exact (helse x (Or.inr hx')).2.1 hm
  have hpm := (helse p (by simp)).2.2
  have hids : (Outline.node p (front ++ mid ++ rest)).ids.Nodup := by
    rw [Outline.ids_node, List.flatMap_append, List.flatMap_append, List.nodup_cons,
      List.nodup_append', List.nodup_append', List.mem_append, List.mem_append]
    refine ⟨fun hm => by tauto, ⟨hf, hnodup, ?_⟩, hr, ?_⟩
    · exact fun x hx hm => (helse x (by simp only [hx, true_or, or_true])).2.2 hm
    · rw [List.disjoint_append_left]
      exact ⟨hfr, fun x hm hx => (helse x (by simp only [hx, or_true])).2.2 hm⟩
  have habove : ∀ x ∈ above, x ∉ (Outline.node p (front ++ mid ++ rest)).ids := by
    intro x hx hm
    have hnot := (h.apart x hx).2
    rw [Outline.ids_node, List.flatMap_append, List.flatMap_cons] at hnot
    rw [Outline.ids_node, List.flatMap_append, List.flatMap_append] at hm
    have := (helse x (by simp [hx])).2.2
    simp only [List.mem_cons, List.mem_append] at hnot hm
    tauto
  refine ⟨.node ?_ hchildren ?_, hids, ?_, ?_, h.distinct, ?_⟩
  · exact Nat.lt_of_lt_of_le h.inside hc.size_le
  · intro o ho
    rw [List.append_assoc, List.mem_append, List.mem_append] at ho
    by_cases hm : o ∈ mid
    · exact hspans o hm
    · have hfr : o ∈ front ++ rest := by
        rw [List.mem_append]
        tauto
      have ht : t.Spans o := h.spans.held o (by
        rw [List.mem_append] at hfr ⊢
        exact hfr.imp id (List.mem_cons_of_mem c))
      exact ht.congr hc.size_le fun x hx =>
        hc.element_eq x (ht.lt_size x hx) (hside o hfr x hx)
  · intro d hd
    have hd' : d ∈ front ++ rest := List.mem_append_right _ hd
    obtain ⟨hs, hp⟩ := h.ahead d (List.mem_cons_of_mem c hd)
    refine ⟨hs.congr hc (hside d hd') (by simp), ?_⟩
    rw [hc.parent_eq _ hs.spans.inside (hside d hd' _ d.id_mem_ids), hp]
  · refine h.chain.congr fun x hx => ?_
    rcases List.mem_cons.mp hx with rfl | hx'
    · exact hparent
    · have hxp : x ≠ p := fun he => (h.apart x hx').2 (by simp [Outline.ids_node, he])
      obtain ⟨hlt, hno, _⟩ := helse x (Or.inl hx)
      exact hc.parent_eq x hlt (by simp [hxp, hno])
  · exact fun x hx => ⟨Nat.lt_of_lt_of_le (h.apart x hx).1 hc.size_le, habove x hx⟩

/-- Going through a place leaves the holder itself alone. -/
theorem Midway.unchanged (h : t.Midway p front (c :: rest) above top) (hc : t.Changes t' c.ids) :
    t'.element p = t.element p ∧ t'.parent p = t.parent p := by
  obtain ⟨hp, hpc⟩ := h.elsewhere (x := p) (by simp)
  exact ⟨hc.element_eq p hp hpc, hc.parent_eq p hp hpc⟩

theorem Midway.child_after (h : t.Midway p front (c :: rest) above top)
    (hc : t.Changes t' c.ids) :
    (t'.element p).children[front.length]? = some c.id ∧ c.id < t'.size ∧ p < t'.size := by
  rw [(h.unchanged hc).1]
  exact ⟨h.child, Nat.lt_of_lt_of_le h.site.stands.spans.inside hc.size_le,
    Nat.lt_of_lt_of_le h.inside hc.size_le⟩

/-- What grew in a place is put into it. -/
theorem Midway.fill (h : t.Midway p front (c :: rest) above top) (hr : t.Regrown t' c.ids o) :
    (t'.refit p front.length o.id).Midway p (front ++ [o]) rest above top ∧
      t.Changes (t'.refit p front.length o.id) (p :: c.ids) := by
  obtain ⟨helement, hparent⟩ := h.unchanged hr.changes
  obtain ⟨hk, hold, hp⟩ := h.child_after hr.changes
  have hnew : o.id < t'.size := hr.spans.inside
  have hpt : p < t.size := h.inside
  obtain ⟨_, hpc⟩ := h.elsewhere (x := p) (by simp)
  have hpo : p ∉ o.ids := fun hm => (hr.within p hm).elim hpc (Nat.not_le.mpr hpt)
  have hchanges : t.Changes (t'.refit p front.length o.id) (p :: c.ids) := by
    refine (hr.changes.mono fun x hx => Or.inl (List.mem_cons_of_mem p hx)).trans
      (changes_refit hp hk hold hnew) fun x hx => ?_
    simp only [List.mem_cons, List.not_mem_nil, or_false] at hx
    rcases hx with rfl | rfl | rfl
    · simp
    · simp [c.id_mem_ids]
    · exact (hr.within _ o.id_mem_ids).imp (List.mem_cons_of_mem p) id
  refine ⟨h.next hchanges (fun x hx => Or.inl hx) ?_ ?_ ?_ ?_ ?_, hchanges⟩
  · rw [children_refit hp, helement, h.spans.children]
    simp
  · have hpold : p ≠ c.id := fun he => hpc (he ▸ c.id_mem_ids)
    have hpnew : p ≠ o.id := fun he => hpo (he ▸ o.id_mem_ids)
    rw [parent_refit hk hold hnew, if_neg hpnew, if_neg hpold, hparent]
  · intro o' ho'
    rw [List.mem_singleton.mp ho']
    refine hr.spans.congr (by simp) fun x hx => ?_
    have hxp : x ≠ p := fun he => hpo (he ▸ hx)
    rw [element_refit hp, if_neg hxp]
  · simpa using hr.nodup
  · simpa using hr.within

theorem Midway.grows_fill (h : t.Midway p front (c :: rest) above top)
    (hr : t.Regrown t' c.ids o) : t'.Grows (t'.refit p front.length o.id) := by
  obtain ⟨hk, hold, hp⟩ := h.child_after hr.changes
  exact (changes_refit hp hk hold hr.spans.inside).toGrows

/-- A member that was deleted leaves its list. -/
theorem Midway.drop (h : t.Midway p front (c :: rest) above top) (hc : t.Changes t' c.ids)
    (hl : (t.element p).isList = true) :
    (t'.takeOut p front.length).Midway p front rest above top ∧
      t.Changes (t'.takeOut p front.length) (p :: c.ids) := by
  obtain ⟨helement, hparent⟩ := h.unchanged hc
  obtain ⟨hk, hold, hp⟩ := h.child_after hc
  obtain ⟨_, hpc⟩ := h.elsewhere (x := p) (by simp)
  have hl' : (t'.element p).isList = true := helement ▸ hl
  have hchanges : t.Changes (t'.takeOut p front.length) (p :: c.ids) := by
    refine (hc.mono fun x hx => Or.inl (List.mem_cons_of_mem p hx)).trans
      (changes_takeOut hl' hk hp hold) fun x hx => ?_
    simp only [List.mem_cons, List.not_mem_nil, or_false] at hx
    rcases hx with rfl | rfl
    · simp
    · simp [c.id_mem_ids]
  have hnext : (t'.takeOut p front.length).Midway p (front ++ []) rest above top := by
    refine h.next hchanges (fun x hx => Or.inl hx) ?_ ?_ (by simp) (by simp) (by simp)
    · rw [children_takeOut hl' hk hp, helement, h.spans.children]
      simp [List.eraseIdx_append_of_length_le]
    · have hpold : p ≠ c.id := fun he => hpc (he ▸ c.id_mem_ids)
      rw [parent_takeOut hl' hk hold, if_neg hpold, hparent]
  rw [List.append_nil] at hnext
  exact ⟨hnext, hchanges⟩

theorem Midway.grows_drop (h : t.Midway p front (c :: rest) above top)
    (hc : t.Changes t' c.ids) (hl : (t.element p).isList = true) :
    t'.Grows (t'.takeOut p front.length) := by
  obtain ⟨hk, hold, hp⟩ := h.child_after hc
  exact (changes_takeOut ((h.unchanged hc).1 ▸ hl) hk hp hold).toGrows

/-- The changes of one place and of those behind it. -/
theorem Changes.next {t₁ : Tree} (hc : t.Changes t₁ (p :: c.ids))
    (hrest : t₁.Changes t' (p :: rest.flatMap Outline.ids)) :
    t.Changes t' (p :: (c :: rest).flatMap Outline.ids) := by
  refine (hc.mono fun x hx => Or.inl ?_).trans hrest fun x hx => Or.inl ?_ <;>
    simp only [List.flatMap_cons, List.mem_cons, List.mem_append] at hx ⊢ <;> tauto

/-- An empty list grows where a part was deleted. -/
theorem Regrown.empty {own : List NodeId} (hc : t.Changes t' own) :
    t.Regrown t'.addEmpty.2 own (.node t'.size []) where
  changes := by
    refine hc.trans (changes_add t' none ?_) ?_ <;> simp [Element.children]
  spans := by
    refine .node (by simp [addEmpty]) ?_ (by simp)
    rw [addEmpty, element_add, if_pos rfl]
    rfl
  nodup := by simp [Outline.ids_node]
  within x hx := by
    simp only [Outline.ids_node, List.flatMap_nil, List.mem_singleton] at hx
    exact Or.inr (hx ▸ hc.size_le)

end

end Tree

end WikiHtml
