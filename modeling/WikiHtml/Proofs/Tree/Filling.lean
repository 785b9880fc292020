-- Holders whose places are filled one after another, where every node is in good order again once it
-- is in its place. So the holder is in good order before each place and behind it, and not only as
-- far as its places lie ahead.
import WikiHtml.Proofs.Tree.Site

namespace WikiHtml.Tree

/-- An outline that may come into the place of another one: it is in good order, and made of the
nodes of that one and of new nodes. The node that it replaces is not below it. -/
structure Succeeds (t t' : Tree) (c o : Outline) : Prop where
  regrown : t.Regrown t' c.ids o
  stands : t'.Stands [] o
  passed : o.id = c.id ∨ c.id ∉ o.ids

/-- What became of a holder whose places ahead were gone through: `mid` is what is in them now. -/
structure Refilled (t t' : Tree) (p : NodeId) (front rest mid : List Outline) (above : List NodeId)
    (top : Option NodeId) : Prop where
  changes : t.Changes t' (p :: rest.flatMap Outline.ids)
  site : t'.Site (.node p (front ++ mid)) above top
  within : ∀ x ∈ mid.flatMap Outline.ids, x ∈ rest.flatMap Outline.ids ∨ t.size ≤ x

section

variable {t t₁ t' : Tree} {p : NodeId} {front rest mid held : List Outline} {c o d : Outline}
  {above : List NodeId} {top : Option NodeId}

theorem Stands.of_held (hs : t.Spans (.node p held)) (hn : (Outline.node p held).ids.Nodup)
    (hheld : ∀ c ∈ held, t.Stands [] c ∧ t.parent c.id = some p) :
    t.Stands [] (.node p held) where
  spans := hs
  nodup := hn
  linked e he := by
    rw [if_neg List.not_mem_nil]
    rw [Outline.edges_node, List.mem_append, List.mem_map, List.mem_flatMap] at he
    rcases he with ⟨c, hc, rfl⟩ | ⟨c, hc, he⟩
    · exact (hheld c hc).2
    · simpa using (hheld c hc).1.linked e he

theorem Succeeds.refl (h : t.Stands [] o) : t.Succeeds t o o :=
  ⟨⟨.refl t _, h.spans, h.nodup, fun _ hx => Or.inl hx⟩, h, Or.inl rfl⟩

/-- An empty list may come into the place of a part that was deleted. -/
theorem Succeeds.empty (hc : t.Changes t' c.ids) (h : t.Spans c) :
    t.Succeeds t'.addEmpty.2 c (.node t'.size []) := by
  have hr := Regrown.empty hc
  refine ⟨hr, ⟨hr.spans, hr.nodup, fun e he => ?_⟩, Or.inr fun hm => ?_⟩
  · simp [Outline.edges_node] at he
  · simp only [Outline.ids_node, List.flatMap_nil, List.mem_singleton] at hm
    exact Nat.not_le.mpr h.inside (hm ▸ hc.size_le)

/-! ## Before and behind each place -/

/-- Any places of a holder in good order may be said to be done. -/
theorem Site.midway_at (h : t.Site (.node p (front ++ rest)) above top) :
    t.Midway p front rest above top where
  spans := h.stands.spans
  nodup := h.stands.nodup
  ahead c hc := by
    have hm : c ∈ front ++ rest := List.mem_append_right _ hc
    exact ⟨h.stands.held hm, by simpa using h.stands.parent_held hm⟩
  chain := h.chain
  distinct := h.distinct
  apart := h.apart

/-- A change in one place leaves what is in the other places in good order. -/
theorem Site.others (h : t.Site (.node p (front ++ c :: rest)) above top)
    (hc : t.Changes t' (p :: c.ids)) (hd : d ∈ front ++ rest) :
    t'.Stands [] d ∧ t'.parent d.id = some p := by
  obtain ⟨⟨hpf, _, hpr⟩, _⟩ := Outline.nodup_split.mp h.stands.nodup
  have hside : ∀ x ∈ d.ids, x ∉ p :: c.ids := by
    intro x hx hm
    have hx' : x ∈ front.flatMap Outline.ids ∨ x ∈ rest.flatMap Outline.ids := by
      rcases List.mem_append.mp hd with hd | hd
      · exact Or.inl (List.mem_flatMap.mpr ⟨d, hd, hx⟩)
      · exact Or.inr (List.mem_flatMap.mpr ⟨d, hd, hx⟩)
    rcases List.mem_cons.mp hm with rfl | hm
    · exact hx'.elim hpf hpr
    · exact (h.midway_at.elsewhere (Or.inr hx')).2 hm
  have hm : d ∈ front ++ c :: rest := by
    rw [List.mem_append] at hd ⊢
    exact hd.imp_right (List.mem_cons_of_mem c)
  have hs := h.stands.held hm
  refine ⟨hs.congr hc hside (by simp), ?_⟩
  rw [hc.parent_eq _ hs.spans.inside (hside _ d.id_mem_ids)]
  simpa using h.stands.parent_held hm

/-- A place is filled. -/
theorem Site.fill (h : t.Site (.node p (front ++ c :: rest)) above top)
    (hs : t.Succeeds t₁ c o) :
    (t₁.refit p front.length o.id).Site (.node p (front ++ o :: rest)) above top ∧
      t.Changes (t₁.refit p front.length o.id) (p :: c.ids) := by
  obtain ⟨hnext, hchanges⟩ := h.midway_at.fill hs.regrown
  obtain ⟨hk, hold, hp⟩ := h.midway_at.child_after hs.regrown.changes
  have hin : o.id < t₁.size := hs.stands.spans.inside
  have hparent : ∀ x, (t₁.refit p front.length o.id).parent x = _ := parent_refit hk hold hin
  rw [List.append_cons front o rest]
  refine ⟨⟨.of_held hnext.spans hnext.nodup fun d hd => ?_, hnext.chain, hnext.distinct,
    hnext.apart⟩, hchanges⟩
  rcases eq_or_ne d o with rfl | hne
  · refine ⟨⟨hnext.spans.held d hd, hs.stands.nodup, fun e he => ?_⟩, by rw [hparent, if_pos rfl]⟩
    have hold : e.2 ≠ c.id := by
      rcases hs.passed with hsame | hpassed
      · exact hsame ▸ Outline.held_ne_id hs.stands.nodup he
      · exact fun heq => hpassed (heq ▸ Outline.mem_ids_of_edge he)
    rw [hparent, if_neg (Outline.held_ne_id hs.stands.nodup he), if_neg hold]
    exact hs.stands.linked e he
  · refine h.others hchanges ?_
    simp only [List.mem_append, List.mem_singleton] at hd ⊢
    exact hd.imp_left fun hd => hd.resolve_right hne

/-- A member is taken out of its list. -/
theorem Site.drop (h : t.Site (.node p (front ++ c :: rest)) above top)
    (hc : t.Changes t₁ c.ids) (hl : (t.element p).isList = true) :
    (t₁.takeOut p front.length).Site (.node p (front ++ rest)) above top ∧
      t.Changes (t₁.takeOut p front.length) (p :: c.ids) := by
  obtain ⟨hnext, hchanges⟩ := h.midway_at.drop hc hl
  exact ⟨⟨.of_held hnext.spans hnext.nodup fun d hd => h.others hchanges hd, hnext.chain,
    hnext.distinct, hnext.apart⟩, hchanges⟩

/-! ## From place to place -/

theorem Refilled.refl (h : t.Site (.node p (front ++ rest)) above top) :
    t.Refilled t p front rest rest above top :=
  ⟨.refl t _, h, fun _ hx => Or.inl hx⟩

theorem Refilled.fill (h : t.Site (.node p (front ++ c :: rest)) above top) (hs : t.Succeeds t₁ c o)
    (hrest : (t₁.refit p front.length o.id).Refilled t' p (front ++ [o]) rest mid above top) :
    t.Refilled t' p front (c :: rest) (o :: mid) above top := by
  obtain ⟨_, hchanges⟩ := h.fill hs
  refine ⟨hchanges.next hrest.changes, ?_, fun x hx => ?_⟩
  · rw [List.append_cons]
    exact hrest.site
  · rcases List.mem_append.mp hx with hx | hx
    · exact (hs.regrown.within x hx).imp_left (List.mem_append_left _)
    · exact (hrest.within x hx).imp (List.mem_append_right _) (Nat.le_trans hchanges.size_le)

theorem Refilled.drop (h : t.Site (.node p (front ++ c :: rest)) above top)
    (hc : t.Changes t₁ c.ids) (hl : (t.element p).isList = true)
    (hrest : (t₁.takeOut p front.length).Refilled t' p front rest mid above top) :
    t.Refilled t' p front (c :: rest) mid above top := by
  obtain ⟨_, hchanges⟩ := h.drop hc hl
  exact ⟨hchanges.next hrest.changes, hrest.site, fun x hx =>
    (hrest.within x hx).imp (List.mem_append_right _) (Nat.le_trans hchanges.size_le)⟩

/-- What may come into a place may do so when its own places were gone through. -/
theorem Succeeds.refilled (h : t.Succeeds t₁ c (.node p held)) (hc : t.Spans c)
    (hheld : t₁.Refilled t' p [] held mid above top) : t.Succeeds t' c (.node p mid) := by
  have hwithin : ∀ x ∈ (Outline.node p mid).ids,
      x ∈ (Outline.node p held).ids ∨ t₁.size ≤ x := by
    intro x hx
    rw [Outline.ids_node, List.mem_cons] at hx ⊢
    rcases hx with rfl | hx
    · exact Or.inl (Or.inl rfl)
    · exact (hheld.within x hx).imp_left Or.inr
  have hown : ∀ x ∈ p :: held.flatMap Outline.ids, x ∈ c.ids ∨ t.size ≤ x := fun x hx =>
    h.regrown.within x (by rwa [Outline.ids_node])
  have hs : t'.Stands [] (.node p mid) := hheld.site.stands
  refine ⟨⟨h.regrown.changes.trans hheld.changes hown, hs.spans, hs.nodup, fun x hx => ?_⟩, hs,
    h.passed.imp_right fun hnot hm => ?_⟩
  · rcases hwithin x hx with hx | hx
    · exact h.regrown.within x hx
    · exact Or.inr (Nat.le_trans h.regrown.changes.size_le hx)
  · rcases hwithin _ hm with hm | hm
    · exact hnot hm
    · exact Nat.not_le.mpr hc.inside (Nat.le_trans h.regrown.changes.size_le hm)

end

end WikiHtml.Tree
