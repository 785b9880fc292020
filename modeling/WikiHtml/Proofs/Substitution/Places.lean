-- Where a pass is when it visits a node. The parts around the node are as far as the pass has come:
-- what they hold before the node is done, and they themselves are there in the end.
import WikiHtml.Proofs.Substitution.Steady

namespace WikiHtml.Substitution

variable {pass : Pass} {done : Element Empty → Prop} {top : Option NodeId}

/-! ## Around a visit -/

/-- A visit is made in a part of the tree below the nodes in `above`. The nodes between have finite
parts below them, and they are among those that are left. -/
structure Visit.Placed (v : Visit) (top : Option NodeId) (above left : List NodeId) : Prop where
  site : ∃ (o : Outline) (between : List NodeId), o.id = v.node ∧
    v.tree.Site o (between ++ above) top ∧
    ∀ a ∈ between, a ∈ left ∧ ∃ b : Outline, b.id = a ∧ v.tree.Spans b ∧ b.ids.Nodup

/-- A visit below a holder is one in the part of the holder. -/
theorem Visit.Placed.outward {v : Visit} {p : NodeId} {above : List NodeId} {held : List Outline}
    (h : v.Placed top (p :: above) (held.flatMap Outline.ids))
    (hpart : ∃ b : Outline, b.id = p ∧ v.tree.Spans b ∧ b.ids.Nodup) :
    v.Placed top above (Outline.node p held).ids := by
  obtain ⟨o, between, ho, hs, hb⟩ := h.site
  rw [Outline.ids_node]
  refine ⟨o, between ++ [p], ho, by simpa using hs, fun a ha => ?_⟩
  rcases List.mem_append.mp ha with ha | ha
  · exact ⟨List.mem_cons_of_mem p (hb a ha).1, (hb a ha).2⟩
  · obtain rfl := List.mem_singleton.mp ha
    exact ⟨List.mem_cons_self, hpart⟩

theorem Visit.Placed.mono {v : Visit} {above left left' : List NodeId} (h : v.Placed top above left)
    (hleft : ∀ x ∈ left, x ∈ left') : v.Placed top above left' := by
  obtain ⟨o, between, ho, hs, hb⟩ := h.site
  exact ⟨o, between, ho, hs, fun a ha => ⟨hleft a (hb a ha).1, (hb a ha).2⟩⟩

section

variable {p x : NodeId} {front mid rest : List Outline} {o : Outline} {bound : Nat}

/-- The nodes around a place stay when other ones come into the place. -/
theorem mem_ids_around (h : ∀ x ∈ mid.flatMap Outline.ids, x ∈ o.ids ∨ bound ≤ x)
    (hx : x ∈ (Outline.node p (front ++ mid ++ rest)).ids) :
    x ∈ (Outline.node p (front ++ o :: rest)).ids ∨ bound ≤ x := by
  simp only [Outline.ids_node, List.flatMap_append, List.flatMap_cons, List.mem_cons,
    List.mem_append] at hx ⊢
  rcases hx with rfl | (hx | hx) | hx
  · exact Or.inl (Or.inl rfl)
  · exact Or.inl (Or.inr (Or.inl hx))
  · exact (h x hx).imp_left fun hx => Or.inr (Or.inr (Or.inl hx))
  · exact Or.inl (Or.inr (Or.inr (Or.inr hx)))

theorem mem_ids_place (hx : x ∈ p :: o.ids) : x ∈ (Outline.node p (front ++ o :: rest)).ids := by
  simp only [Outline.ids_node, List.flatMap_append, List.flatMap_cons, List.mem_cons,
    List.mem_append] at hx ⊢
  exact hx.imp_right fun hx => Or.inr (Or.inl hx)

end

/-- While a place of a holder is gone through, the holder holds what has come of it so far. -/
theorem midway_during {t t' : Tree} {p : NodeId} {front rest : List Outline} {o o' : Outline}
    {above : List NodeId} (hm : t.Midway p front (o :: rest) above top)
    (hr : t.Regrown t' o.ids o') (hid : o'.id = o.id) :
    t.Regrown t' (Outline.node p (front ++ o :: rest)).ids (.node p (front ++ [o'] ++ rest)) := by
  obtain ⟨helement, hparent⟩ := hm.unchanged hr.changes
  have hwithin : ∀ x ∈ [o'].flatMap Outline.ids, x ∈ o.ids ∨ t.size ≤ x := by
    simpa using hr.within
  have hchanges : t.Changes t' (p :: o.ids) :=
    hr.changes.mono fun x hx => Or.inl (List.mem_cons_of_mem p hx)
  have hnext : t'.Midway p (front ++ [o']) rest above top :=
    hm.next hchanges (fun x hx => Or.inl hx) (by rw [helement, hm.spans.children]; simp [hid])
      hparent (by simpa using hr.spans) (by simpa using hr.nodup) hwithin
  exact ⟨hchanges.mono fun x hx => Or.inl (mem_ids_place hx), hnext.spans, hnext.nodup,
    fun x hx => mem_ids_around hwithin hx⟩

/-- What grew after an earlier change grew from before it. -/
theorem regrown_after {t t₁ t' : Tree} {own own₁ own' : List NodeId} {o : Outline}
    (hr : t₁.Regrown t' own₁ o) (hc : t.Changes t₁ own) (hown : ∀ x ∈ own, x ∈ own')
    (hown₁ : ∀ x ∈ own₁, x ∈ own' ∨ t.size ≤ x) : t.Regrown t' own' o where
  changes := (hc.mono fun x hx => Or.inl (hown x hx)).trans hr.changes hown₁
  spans := hr.spans
  nodup := hr.nodup
  within x hx := (hr.within x hx).elim (hown₁ x) fun hx => Or.inr (Nat.le_trans hc.size_le hx)

/-- What took the place of a node is made of new nodes, so the part that was there is still there. -/
theorem regrown_old {t t₁ t' : Tree} {o : Outline} {new : NodeId} {held : List Outline}
    {above : List NodeId} {d : Document} (hs : t.Site o above top)
    (ht : (Move.replace d).take t o.id = (some new, t₁)) (hr : t.Regrown t₁ o.ids (.node new held))
    (hfresh : ∀ x ∈ (Outline.node new held).ids, t.size ≤ x)
    (hc : t₁.Changes t' (Outline.node new held).ids) : t.Regrown t' o.ids o := by
  have htake : t.Changes t₁ [] := by
    have hchanges := changes_take (.put d) t o.id
    rwa [show (Verdict.put d).move = .replace d from rfl, ht] at hchanges
  have hchanges : t.Changes t' [] := htake.trans hc fun x hx => Or.inr (hfresh x hx)
  refine ⟨hr.changes.trans hc hr.within, ?_, hs.stands.nodup, fun x hx => Or.inl hx⟩
  exact hs.stands.spans.congr hchanges.size_le fun x hx =>
    hchanges.element_eq x (hs.stands.spans.lt_size x hx) (by simp)

/-- At each visit of a run the part that the run goes through stands in its place, as far as it has
come, and so do the parts in it around the visited node. -/
theorem run_places :
    (∀ {o above t s r t' s' visits}, Run pass.callback top o above t s r t' s' visits →
      ∀ v ∈ visits, (∃ o', o'.id = o.id ∧ t.Regrown v.tree o.ids o') ∧
        ∃ left, v.Placed top above left ∧ ∀ x ∈ left, ∃ o', r = some o' ∧ x ∈ o'.ids) ∧
    (∀ {p front rest above t s held' t' s' visits},
      RunHeld pass.callback top p front rest above t s held' t' s' visits →
      ∀ v ∈ visits, (∃ o', o'.id = p ∧
          t.Regrown v.tree (Outline.node p (front ++ rest)).ids o') ∧
        v.Placed top (p :: above) (held'.flatMap Outline.ids)) := by
  have hown : ∀ {t : Tree} {o : Outline} {above : List NodeId}, t.Site o above top →
      t.Regrown t o.ids o := fun site =>
    ⟨.refl _ _, site.stands.spans, site.stands.nodup, fun x hx => Or.inl hx⟩
  have hplaced : ∀ {t : Tree} {o : Outline} {above : List NodeId} {m : Move},
      t.Site o above top → Visit.Placed ⟨t, o.id, m⟩ top above [] := fun site =>
    ⟨_, [], rfl, site, by simp⟩
  refine run_induct ?_ ?_ ?_ ?_ ?_ ?_
  · intro id held held' above t t' s s' visits _ _ _ ih v hv
    obtain ⟨⟨o', hid, hr⟩, hp⟩ := ih v hv
    exact ⟨⟨o', hid, hr⟩, _, hp.outward ⟨o', hid, hr.spans, hr.nodup⟩, fun x hx => ⟨_, rfl, hx⟩⟩
  · intro o above t s s' m site _ _ _ v hv
    obtain rfl := List.mem_singleton.mp hv
    exact ⟨⟨o, rfl, hown site⟩, [], hplaced site, by simp⟩
  · intro o new held held' above t t₁ t' s s₁ s' m visits site _ hc ht _ hr _ hleads _ ih v hv
    rcases List.mem_cons.mp hv with rfl | hv
    · exact ⟨⟨o, rfl, hown site⟩, [], hplaced site, by simp⟩
    · obtain ⟨⟨o', hid, hr'⟩, hp⟩ := ih v hv
      have hout := hp.outward ⟨o', hid, hr'.spans, hr'.nodup⟩
      refine ⟨?_, _, hout, fun x hx => ⟨_, rfl, hx⟩⟩
      obtain ⟨verdict, _, rfl⟩ := pass_decided.mp hc
      cases verdict with
      | keep =>
        obtain ⟨rfl, rfl⟩ := hleads
        exact ⟨o', hid, hr'⟩
      | delete => exact hleads.elim
      | put d => exact ⟨o, rfl, regrown_old site ht hr hleads.1 hr'.changes⟩
  · intro p front above t s _ v hv
    simp at hv
  · intro p front rest held' o above t t₁ t' s s₁ s' r visits later hm _ _ hr hrest ih ih' v hv
    rcases List.mem_append.mp hv with hv | hv
    · obtain ⟨⟨o', hid, hr'⟩, left, hp, hleft⟩ := ih v hv
      refine ⟨⟨_, rfl, midway_during hm hr' hid⟩, hp.mono fun x hx => ?_⟩
      obtain ⟨kept, rfl, hx⟩ := hleft x hx
      obtain ⟨_, _, _, mid, hmid, _⟩ := run_changes.2 hrest
      rw [hmid]
      exact List.mem_flatMap.mpr ⟨kept, by simp [patch], hx⟩
    · obtain ⟨⟨o', hid, hr'⟩, hp⟩ := ih' v hv
      refine ⟨⟨o', hid, regrown_after hr' (hm.fill hr).2 (fun x hx => mem_ids_place hx)
        fun x hx => mem_ids_around ?_ hx⟩, hp⟩
      simpa using hr.within
  · intro p front rest held' o above t t₁ t' s s₁ s' visits later hm _ hl hch _ ih ih' v hv
    rcases List.mem_append.mp hv with hv | hv
    · obtain ⟨⟨o', hid, hr'⟩, left, hp, hleft⟩ := ih v hv
      refine ⟨⟨_, rfl, midway_during hm hr' hid⟩, hp.mono fun x hx => ?_⟩
      obtain ⟨kept, hnone, _⟩ := hleft x hx
      cases hnone
    · obtain ⟨⟨o', hid, hr'⟩, hp⟩ := ih' v hv
      refine ⟨⟨o', hid, regrown_after hr' (hm.drop hch hl).2 (fun x hx => mem_ids_place hx)
        fun x hx => ?_⟩, hp⟩
      have hx' : x ∈ (Outline.node p (front ++ [] ++ rest)).ids := by simpa using hx
      exact mem_ids_around (by simp) hx'

/-! ## What was gone through before -/

/-- The node that stands in the place of the visited one after the visit. -/
def Visit.left (v : Visit) : Option NodeId :=
  (v.move.take v.tree v.node).1

/-- Every node that is in its place in the end, but for lists, came there at a visit. -/
theorem run_offers_all :
    (∀ {o above t s r t' s' visits}, Run pass.callback top o above t s r t' s' visits →
      ∀ o', r = some o' → ∀ x ∈ o'.ids, (t'.element x).isList = false →
        ∃ v ∈ visits, v.left = some x) ∧
    (∀ {p front rest above t s held' t' s' visits},
      RunHeld pass.callback top p front rest above t s held' t' s' visits →
      ∀ x ∈ held'.flatMap Outline.ids, (t'.element x).isList = false →
        x ∈ front.flatMap Outline.ids ∨ ∃ v ∈ visits, v.left = some x) := by
  refine run_induct ?_ ?_ ?_ ?_ ?_ ?_
  · intro id held held' above t t' s s' visits site hl hrest ih o' ho' x hx hxl
    obtain rfl := Option.some.inj ho'
    rw [Outline.ids_node, List.mem_cons] at hx
    rcases hx with rfl | hx
    · have hin : x < t.size := site.stands.spans.inside
      rw [(run_changes.2 hrest).1.toGrows.isList_eq hin, hl] at hxl
      cases hxl
    · exact (ih x hx hxl).resolve_left (by simp)
  · intro o above t s s' m _ _ _ _ o' ho'
    cases ho'
  · intro o new held held' above t t₁ t' s s₁ s' m visits _ _ _ ht _ _ _ _ _ ih o' ho' x hx hxl
    obtain rfl := Option.some.inj ho'
    rw [Outline.ids_node, List.mem_cons] at hx
    rcases hx with rfl | hx
    · exact ⟨_, List.mem_cons_self, by rw [Visit.left, ht]⟩
    · obtain ⟨v, hv, hleft⟩ := (ih x hx hxl).resolve_left (by simp)
      exact ⟨v, List.mem_cons_of_mem _ hv, hleft⟩
  · intro p front above t s _ x hx _
    exact Or.inl hx
  · intro p front rest held' o above t t₁ t' s s₁ s' r visits later hm _ _ hr hrest ih ih' x hx hxl
    rcases ih' x hx hxl with hx | ⟨v, hv, hleft⟩
    · rw [List.flatMap_append, List.flatMap_singleton, List.mem_append] at hx
      refine hx.imp_right fun hx => ?_
      have hgrows := (hm.grows_fill hr).trans (run_changes.2 hrest).1.toGrows
      rw [hgrows.isList_eq (hr.spans.lt_size x hx)] at hxl
      cases r with
      | some kept =>
        obtain ⟨v, hv, hleft⟩ := ih kept rfl x hx hxl
        exact ⟨v, List.mem_append_left _ hv, hleft⟩
      | none =>
        simp only [patch, Outline.ids_node, List.flatMap_nil, List.mem_singleton] at hx hxl
        rw [hx, Tree.addEmpty, Tree.element_add, if_pos rfl] at hxl
        cases hxl
    · exact Or.inr ⟨v, List.mem_append_right _ hv, hleft⟩
  · intro p front rest held' o above t t₁ t' s s₁ s' visits later _ _ _ _ _ _ ih' x hx hxl
    rcases ih' x hx hxl with hx | ⟨v, hv, hleft⟩
    · exact Or.inl hx
    · exact Or.inr ⟨v, List.mem_append_right _ hv, hleft⟩

/-- All that is below a node is done. -/
def DoneBelow (done : Element Empty → Prop) (t : Tree) (x : NodeId) : Prop :=
  ∀ y, t.Reaches x y → IsDone done t y

/-- A node that stood in its place at an earlier visit is above this one, or all below it is done. -/
def Visit.Behind (done : Element Empty → Prop) (earlier v : Visit) : Prop :=
  ∀ x, earlier.left = some x → v.tree.ComesUpTo v.node x ∨ DoneBelow done v.tree x

theorem Visit.Placed.comesUpTo {v : Visit} {p : NodeId} {above left : List NodeId}
    (h : v.Placed top (p :: above) left) : v.tree.ComesUpTo v.node p := by
  obtain ⟨o, between, ho, hs, _⟩ := h.site
  exact ho ▸ Tree.comesUpTo_of_mem hs.chain (by simp)

/-- What was done in a part stays so below each of its nodes. -/
theorem doneBelow_of_steady {t t' : Tree} {o : Outline} (hs : t.Spans o)
    (hd : ∀ x ∈ o.ids, done (t.element x).bare) (h : Steady done t t') {x : NodeId}
    (hx : x ∈ o.ids) : DoneBelow done t' x := by
  intro y hy
  have hs' := h.spans hs hd
  have hmem : y ∈ o.ids := hs'.mem_of_reaches ((hs'.reaches hx).trans hy)
  exact IsDone.grows ⟨hs.lt_size y hmem, hd y hmem⟩ h.toGrows

/-- A run comes to a node when it is done with the nodes before, but for those above. -/
theorem run_behind (h : pass.Settles done) :
    (∀ {o above t s r t' s' visits}, Run pass.callback top o above t s r t' s' visits →
      visits.Pairwise (Visit.Behind done)) ∧
    (∀ {p front rest above t s held' t' s' visits},
      RunHeld pass.callback top p front rest above t s held' t' s' visits →
      visits.Pairwise (Visit.Behind done)) := by
  refine run_induct ?_ ?_ ?_ ?_ ?_ ?_
  · intro id held held' above t t' s s' visits _ _ _ ih
    exact ih
  · intro o above t s s' m _ _ _ _
    exact List.pairwise_singleton _ _
  · intro o new held held' above t t₁ t' s s₁ s' m visits _ _ _ ht _ _ _ _ hrest ih
    refine List.pairwise_cons.mpr ⟨fun v hv x hx => Or.inl ?_, ih⟩
    rw [Visit.left, ht] at hx
    obtain rfl : new = x := Option.some.inj hx
    exact (run_places.2 hrest v hv).2.comesUpTo
  · intro p front above t s _
    exact List.Pairwise.nil
  · intro p front rest held' o above t t₁ t' s s₁ s' r visits later hm hrun _ hr hrest ih ih'
    refine List.pairwise_append.mpr ⟨ih, ih', fun w hw v hv x hx => Or.inr ?_⟩
    obtain ⟨kept, rfl, hmem⟩ := run_answers.1 hrun w hw x hx
    have hfill := hm.grows_fill hr
    have hspans := (hm.fill hr).1.spans.held kept (by simp [patch])
    refine doneBelow_of_steady hspans (fun y hy => ?_) (((run_steady h).2 hrest).2 v hv).1 hmem
    rw [hfill.bare_eq (hr.spans.lt_size y hy)]
    exact (run_settles h).1 hrun kept rfl y hy
  · intro p front rest held' o above t t₁ t' s s₁ s' visits later _ hrun _ _ _ ih ih'
    refine List.pairwise_append.mpr ⟨ih, ih', fun w hw v hv x hx => ?_⟩
    obtain ⟨kept, hnone, _⟩ := run_answers.1 hrun w hw x hx
    cases hnone

/-! ## From a visit to the end -/

section

variable {t t₁ : Tree} {o kept : Outline} {above : List NodeId} {r : Option Outline}
  {visits : List Visit}

/-- From before a visit on, a run keeps what is done. -/
theorem steady_visit (h : pass.Settles done)
    (hrun : Run pass.callback top o above t () r t₁ () visits) {v : Visit} (hv : v ∈ visits) :
    Steady done v.tree t₁ := by
  obtain ⟨s, s', hc⟩ := run_decided.1 hrun v hv
  obtain ⟨verdict, _, hm⟩ := pass_decided.mp hc
  have hafter := (((run_steady h).1 hrun).2 v hv).2
  rw [hm] at hafter
  exact (Steady.of_changes (changes_take verdict v.tree v.node)).trans hafter

/-- Below a node that is left in the end, the nodes that were done at some time are left as well. -/
theorem left_of_steady (hrun : Run pass.callback top o above t () (some kept) t₁ () visits)
    {t₂ : Tree} (hst : Steady done t₂ t₁)
    (hleaf : ∀ x < t₂.size, ¬ done (t₂.element x).bare → (t₂.element x).children = [])
    {b : Outline} (hs : t₂.Spans b) (hb : b.id ∈ kept.ids) {x : NodeId} (hx : x ∈ b.ids)
    (hd : done (t₂.element x).bare) : x ∈ kept.ids := by
  have hspans := ((run_changes.1 hrun).2.2 kept rfl).spans
  exact hspans.mem_of_reaches ((hspans.reaches hb).trans (hst.reaches hleaf hs hx hd))

theorem steady_cap (t : Tree) (root : NodeId) (r : Option Outline) (t₁ : Tree) :
    Steady done t₁ (cap t root r t₁).2 :=
  (Steady.of_changes (changes_patch t₁ r)).trans
    (.of_elements (size_le_cap t root) (fun _ hx => span_cap t root hx)
      fun _ hx => element_cap t root hx)

end

end WikiHtml.Substitution
