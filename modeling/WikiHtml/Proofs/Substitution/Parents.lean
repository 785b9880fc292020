-- Which parents are right after a run. A node that an element was put around loses its parent again
-- when that element comes into the place of the node; every other node that is held has its holder
-- as parent.
import WikiHtml.Proofs.Substitution.WholeTree

namespace WikiHtml.Substitution

variable {σ ε : Type} {c : Callback σ ε} {top : Option NodeId}

/-- The nodes that elements were put around, one entry for each time. -/
def wraps (visits : List Visit) : List NodeId :=
  (visits.filter (·.move.isWrap)).map (·.node)

theorem wraps_append (visits later : List Visit) :
    wraps (visits ++ later) = wraps visits ++ wraps later := by
  simp [wraps]

theorem mem_wraps {visits : List Visit} {x : NodeId} (h : x ∈ wraps visits) :
    ∃ v ∈ visits, v.node = x := by
  obtain ⟨v, hv, rfl⟩ := List.mem_map.mp h
  exact ⟨v, (List.mem_filter.mp hv).1, rfl⟩

/-- Only nodes of the part that a run goes through, and new ones, are wrapped. -/
theorem wraps_within {visits : List Visit} {t t' : Tree} {own : List NodeId}
    (h : ∀ v ∈ visits, v.Within top t t' own) {x : NodeId} (hx : x ∈ wraps visits) :
    (x ∈ own ∨ t.size ≤ x) ∧ x < t'.size := by
  obtain ⟨v, hv, rfl⟩ := mem_wraps hx
  exact ⟨(h v hv).own_or_new, (h v hv).lt_size⟩

/-- The parents below an outline that came into the place of a node: they are the holders, but the
wrapped nodes have none, where `old` was wrapped once less, as its place is still to be filled. -/
structure Linked (t : Tree) (wrapped : List NodeId) (old : NodeId) (o : Outline) : Prop where
  top : o.id ∉ wrapped
  passed : old ∈ o.ids → old ≠ o.id → old ∈ wrapped
  edges : ∀ e ∈ o.edges, t.parent e.2 = if e.2 ∈ wrapped.erase old then none else some e.1

/-- The parents below an outline that stands in its place. -/
structure Settled (t : Tree) (wrapped : List NodeId) (holder : NodeId) (o : Outline) : Prop where
  top : o.id ∉ wrapped
  parent : t.parent o.id = some holder
  edges : ∀ e ∈ o.edges, t.parent e.2 = if e.2 ∈ wrapped then none else some e.1

theorem Settled.congr {t t' : Tree} {wrapped wrapped' : List NodeId} {holder : NodeId}
    {o : Outline} (h : Settled t wrapped holder o)
    (hp : ∀ x ∈ o.ids, t'.parent x = t.parent x)
    (hw : ∀ x ∈ o.ids, x ∈ wrapped' ↔ x ∈ wrapped) : Settled t' wrapped' holder o where
  top := by rw [hw _ o.id_mem_ids]; exact h.top
  parent := by rw [hp _ o.id_mem_ids]; exact h.parent
  edges e he := by
    have hm := Outline.mem_ids_of_edge he
    rw [hp _ hm, h.edges e he]
    simp only [hw _ hm]

/-- An outline settles when it is put into the place of a node. -/
theorem Linked.settle {t : Tree} {wrapped : List NodeId} {p old : NodeId} {k : Nat} {o : Outline}
    (h : Linked t wrapped old o) (hn : o.ids.Nodup)
    (hk : (t.element p).children[k]? = some old) (ho : old < t.size) (hin : o.id < t.size) :
    Settled (t.refit p k o.id) wrapped p o where
  top := h.top
  parent := by rw [Tree.parent_refit hk ho hin, if_pos rfl]
  edges e he := by
    have hne : e.2 ≠ o.id := Outline.held_ne_id hn he
    rw [Tree.parent_refit hk ho hin, if_neg hne]
    by_cases hold : e.2 = old
    · have hm : old ∈ wrapped := h.passed (hold ▸ Outline.mem_ids_of_edge he) (hold ▸ hne)
      rw [if_pos hold, if_pos (hold ▸ hm)]
    · rw [if_neg hold, h.edges e he]
      simp only [List.mem_erase_of_ne hold]

/-- An empty list that is put into the place of a deleted part is linked. -/
theorem linked_patch {t : Tree} {r : Option Outline} {wrapped : List NodeId} {old : NodeId}
    (h : ∀ o, r = some o → Linked t wrapped old o) (hw : ∀ x ∈ wrapped, x < t.size) :
    Linked (patch t r).2 wrapped old (patch t r).1 := by
  cases r with
  | some o => exact h o rfl
  | none =>
    refine ⟨fun hm => Nat.lt_irrefl _ (hw _ hm), fun hm hne => ?_, fun e he => ?_⟩
    · simp only [patch, Outline.ids_node, List.flatMap_nil, List.mem_singleton] at hm
      exact (hne hm).elim
    · simp [patch, Outline.edges_node] at he

/-! ## The parents after a run -/

theorem not_wrapped {visits : List Visit} {t t' : Tree} {own : List NodeId} {x : NodeId}
    (h : ∀ v ∈ visits, v.Within top t t' own) (hx : x < t.size) (hn : x ∉ own) :
    x ∉ wraps visits := fun hm =>
  (wraps_within h hm).1.elim hn (Nat.not_le.mpr hx)

theorem linked_node {t : Tree} {wrapped wrapped' : List NodeId} {old new : NodeId}
    {held : List Outline} (hs : ∀ d ∈ held, Settled t wrapped' new d)
    (herase : wrapped.erase old = wrapped') (htop : new ∉ wrapped)
    (hpassed : old ∈ held.flatMap Outline.ids → old ∈ wrapped) :
    Linked t wrapped old (.node new held) where
  top := htop
  passed hm hne := by
    rw [Outline.ids_node, List.mem_cons] at hm
    exact hpassed (hm.resolve_left hne)
  edges e he := by
    rw [Outline.edges_node, List.mem_append, List.mem_map, List.mem_flatMap] at he
    rw [herase]
    rcases he with ⟨d, hd, rfl⟩ | ⟨d, hd, he⟩
    · rw [if_neg (hs d hd).top, (hs d hd).parent]
    · exact (hs d hd).edges e he

/-- What settled in a place stays so while the places behind it are gone through. -/
theorem Settled.later {t t' : Tree} {p : NodeId} {front rest held' : List Outline} {d : Outline}
    {above : List NodeId} {s s' : σ} {visits later : List Visit}
    (h : Settled t (wraps visits) p d)
    (hm : t.Midway p front rest above top) (hd : d ∈ front)
    (hrest : RunHeld c top p front rest above t s held' t' s' later) :
    Settled t' (wraps (visits ++ later)) p d := by
  have hn := hm.nodup
  rw [Outline.ids_node, List.flatMap_append, List.nodup_cons, List.nodup_append',
    List.mem_append] at hn
  have hlt : ∀ x ∈ d.ids, x < t.size ∧ x ∉ p :: rest.flatMap Outline.ids := by
    intro x hx
    have hx' : x ∈ front.flatMap Outline.ids := List.mem_flatMap.mpr ⟨d, hd, hx⟩
    refine ⟨(hm.spans.held d (List.mem_append_left _ hd)).lt_size x hx, fun hmem => ?_⟩
    rcases List.mem_cons.mp hmem with rfl | hmem
    · exact hn.1 (Or.inl hx')
    · exact hn.2.2.2 hx' hmem
  refine h.congr (fun x hx => ?_) fun x hx => ?_
  · exact (run_changes.2 hrest).1.parent_eq x (hlt x hx).1 (hlt x hx).2
  · have hno : x ∉ wraps later := not_wrapped (run_visits.2 hrest) (hlt x hx).1 fun hmem =>
      (hlt x hx).2 (List.mem_cons_of_mem p hmem)
    rw [wraps_append, List.mem_append, or_iff_left hno]

/-- What settles behind a place is none of what was wrapped in it. -/
theorem Settled.earlier {t t₁ t₂ t' : Tree} {p : NodeId} {front rest : List Outline} {o d : Outline}
    {above : List NodeId} {visits later : List Visit} (h : Settled t' (wraps later) p d)
    (hm : t.Midway p front (o :: rest) above top) (hv : ∀ v ∈ visits, v.Within top t t₁ o.ids)
    (hsize : t₁.size ≤ t₂.size)
    (hd : ∀ x ∈ d.ids, x ∈ rest.flatMap Outline.ids ∨ t₂.size ≤ x) :
    Settled t' (wraps (visits ++ later)) p d := by
  refine h.congr (fun _ _ => rfl) fun x hx => ?_
  have hno : x ∉ wraps visits := by
    intro hmem
    obtain ⟨hown, hlt⟩ := wraps_within hv hmem
    rcases hd x hx with hr | hr
    · obtain ⟨hxt, hxo⟩ := hm.elsewhere (Or.inr (Or.inr hr))
      exact hown.elim hxo (Nat.not_le.mpr hxt)
    · exact absurd (Nat.le_trans hsize hr) (Nat.not_le.mpr hlt)
  rw [wraps_append, List.mem_append, or_iff_right hno]

/-- After a run the parents are the holders, but for the wrapped nodes. -/
theorem run_parents :
    (∀ {o above t s r t' s' visits}, Run c top o above t s r t' s' visits →
      ∀ o', r = some o' → Linked t' (wraps visits) o.id o') ∧
    (∀ {p front rest above t s held' t' s' visits},
      RunHeld c top p front rest above t s held' t' s' visits →
      ∃ mid, held' = front ++ mid ∧ ∀ d ∈ mid, Settled t' (wraps visits) p d) := by
  refine run_induct ?_ ?_ ?_ ?_ ?_ ?_
  · rintro id held held' above t t' s s' visits site hl hrest ⟨mid, hmid, hs⟩ o' ho'
    obtain rfl : held' = mid := hmid
    obtain rfl := Option.some.inj ho'
    have hn := site.stands.nodup
    rw [Outline.ids_node, List.nodup_cons] at hn
    have hid : id ∉ wraps visits :=
      not_wrapped (run_visits.2 hrest) site.stands.spans.inside hn.1
    have hn' := (run_changes.2 hrest).2.2.1.nodup
    rw [List.append_nil, Outline.ids_node, List.nodup_cons] at hn'
    exact linked_node hs (List.erase_of_not_mem hid) hid fun hm => (hn'.1 hm).elim
  · intro o above t s s' m _ _ _ _ o' ho'
    cases ho'
  · rintro o new held held' above t t₁ t' s s₁ s' m visits site _ _ _ site' hr _ hleads hrest
      ⟨mid, hmid, hs⟩ o' ho'
    obtain rfl : held' = mid := hmid
    obtain rfl := Option.some.inj ho'
    have hn := site'.stands.nodup
    rw [Outline.ids_node, List.nodup_cons] at hn
    have hnew : new ∉ wraps visits :=
      not_wrapped (run_visits.2 hrest) site'.stands.spans.inside hn.1
    have hin : o.id < t.size := site.stands.spans.inside
    rcases hw : m.isWrap with _ | _
    · have hwraps : wraps (⟨t, o.id, m⟩ :: visits) = wraps visits := by simp [wraps, hw]
      have hold := Leads.not_held hleads hw site.stands.nodup hin
      have hin₁ : o.id < t₁.size := Nat.lt_of_lt_of_le hin hr.changes.size_le
      have hnot : o.id ∉ wraps visits := not_wrapped (run_visits.2 hrest) hin₁ hold
      rw [hwraps]
      refine linked_node hs (List.erase_of_not_mem hnot) hnew fun hm => ?_
      obtain ⟨_, _, _, mid, hmid, hwithin⟩ := run_changes.2 hrest
      obtain rfl : held' = mid := hmid
      exact ((hwithin _ hm).elim hold (Nat.not_le.mpr hin₁)).elim
    · have hwraps : wraps (⟨t, o.id, m⟩ :: visits) = o.id :: wraps visits := by simp [wraps, hw]
      have hne : new ≠ o.id := by
        cases m with
        | wrap frame span =>
          cases hleads
          exact Nat.ne_of_gt hin
        | _ => cases hw
      rw [hwraps]
      exact linked_node hs (List.erase_cons_head ..) (by simp [hne, hnew]) fun _ => by simp
  · intro p front above t s _
    exact ⟨[], by simp, by simp⟩
  · rintro p front rest held' o above t t₁ t' s s₁ s' r visits later hm hrun _ hr hrest ih
      ⟨mid, hmid, hs⟩
    obtain ⟨hnext, _⟩ := hm.fill hr
    obtain ⟨hk, hold, _⟩ := hm.child_after hr.changes
    obtain ⟨_, _, _, mid', hmid', hwithin⟩ := run_changes.2 hrest
    obtain rfl : mid = mid' := List.append_cancel_left (hmid.symm.trans hmid')
    have hvisits := run_visits.1 hrun
    have hlinked := linked_patch ih fun x hx => (wraps_within hvisits hx).2
    have hsettled := hlinked.settle hr.nodup hk hold hr.spans.inside
    refine ⟨(patch t₁ r).1 :: mid, by rw [hmid]; simp, fun d hd => ?_⟩
    rcases List.mem_cons.mp hd with rfl | hd
    · exact hsettled.later hnext (by simp) hrest
    · refine (hs d hd).earlier hm hvisits ?_ fun x hx =>
        hwithin x (List.mem_flatMap.mpr ⟨d, hd, hx⟩)
      rw [Tree.size_refit]
      exact (grows_patch t₁ r).size_le
  · rintro p front rest held' o above t t₁ t' s s₁ s' visits later hm hrun hl hch hrest _
      ⟨mid, hmid, hs⟩
    obtain ⟨_, _, _, mid', hmid', hwithin⟩ := run_changes.2 hrest
    obtain rfl : mid = mid' := List.append_cancel_left (hmid.symm.trans hmid')
    refine ⟨mid, hmid, fun d hd => (hs d hd).earlier hm (run_visits.1 hrun)
      (hm.grows_drop hch hl).size_le fun x hx =>
        hwithin x (List.mem_flatMap.mpr ⟨d, hd, hx⟩)⟩

/-- Where no element is put around a node, everything is in good order after a run. -/
theorem run_stands {o : Outline} {above : List NodeId} {t t' : Tree} {s s' : σ}
    {r : Option Outline} {visits : List Visit} (h : Run c top o above t s r t' s' visits)
    (hw : ∀ v ∈ visits, v.move.isWrap = false) : (patch t' r).2.Stands [] (patch t' r).1 := by
  have hnone : wraps visits = [] := by
    rw [wraps, List.filter_eq_nil_iff.mpr (by simpa using hw), List.map_nil]
  have hregrown := run_regrown h
  have hlinked : Linked (patch t' r).2 (wraps visits) o.id (patch t' r).1 :=
    linked_patch (run_parents.1 h) fun x hx => by simp [hnone] at hx
  exact ⟨hregrown.spans, hregrown.nodup, fun e he => by simpa [hnone] using hlinked.edges e he⟩

/-! ## Whole trees -/

/-- After a walk over a whole tree the top has no parent, and the parent of every held node is its
holder, unless an element was put around the node, other than once around the old top: then it has
none. -/
theorem held_nodes_have_their_holder_as_parent_unless_wrapped (c : Callback σ ε) {t t' : Tree}
    {root : NodeId} {fuel : Nat} {s s' : σ} {visits : List Visit} (hroot : t.root = some root)
    (hwell : t.WellFormed root)
    (h : page c.traced.rule fuel t (s, []) = .ok (t', s', visits)) :
    ∃ top, t'.root = some top ∧ t'.parent top = none ∧
      ∀ holder x, t'.Reaches top holder → x ∈ (t'.element holder).children →
        t'.parent x = if x ∈ (wraps visits).erase root then none else some holder := by
  obtain ⟨o, rfl, hs⟩ := hwell
  obtain ⟨r, t₁, hrun, rfl⟩ := page_run hroot hs h
  have hlinked : Linked (patch t₁ r).2 (wraps visits) o.id (patch t₁ r).1 :=
    linked_patch (run_parents.1 hrun) fun x hx => (wraps_within (run_visits.1 hrun) hx).2
  have hregrown := run_regrown hrun
  have hstands : (patch t₁ r).2.Stands ((wraps visits).erase o.id) (patch t₁ r).1 :=
    ⟨hregrown.spans, hregrown.nodup, hlinked.edges⟩
  obtain ⟨hcap, htop, hparent, _⟩ :=
    cap_stands t o.id hstands fun hm => hlinked.top (List.mem_of_mem_erase hm)
  refine ⟨_, htop, hparent, fun holder x hreach hx => ?_⟩
  exact hcap.linked (holder, x) (hcap.spans.edge_iff.mpr ⟨hcap.spans.mem_of_reaches hreach, hx⟩)

/-- Puts a bold element around the first text that is offered. -/
def emboldenFirst : Callback Bool Empty := fun id t done =>
  match t.element id, done with
  | .leaf (.text _), false => .ok (.wrap ⟨.wrap .bold (some ()), rfl⟩ none, true)
  | _, _ => .ok (.keep, done)

/-- A page with a list of one text. -/
def pageOfText : Document :=
  .node (.wrap (.page (some "/p"))
    (some (.node (.list [.node (.leaf (.text "x")) none]) none))) none

/-- The page after that: the text has no parent. -/
def pageOfBoldText : Tree :=
  ⟨#[⟨.leaf (.text "x"), none, none⟩, ⟨.list [3], none, some 2⟩,
    ⟨.wrap (.page (some "/p")) (some 1), none, none⟩, ⟨.wrap .bold (some 0), none, some 1⟩],
    some 2⟩

theorem a_text_that_became_bold_has_no_parent :
    ∃ visits, page emboldenFirst.traced.rule 8 (Tree.ofDocument pageOfText) (false, []) =
        .ok (pageOfBoldText, true, visits) ∧
      pageOfBoldText.Reaches 2 3 ∧ 0 ∈ (pageOfBoldText.element 3).children ∧
      pageOfBoldText.parent 0 = none := by
  have hwell : (Tree.ofDocument pageOfText).WellFormed 2 := by
    obtain ⟨o, hroot, hs, _⟩ := Tree.ofDocument_stands pageOfText
    exact ⟨o, Option.some.inj (hroot.symm.trans rfl), hs⟩
  have hreach : pageOfBoldText.Reaches 2 3 :=
    .tail (.tail .refl (show 1 ∈ (pageOfBoldText.element 2).children by decide)) (by decide)
  refine ⟨_, rfl, hreach, by decide, ?_⟩
  obtain ⟨top, htop, _, hlaw⟩ :=
    held_nodes_have_their_holder_as_parent_unless_wrapped emboldenFirst rfl hwell
      (show page emboldenFirst.traced.rule 8 (Tree.ofDocument pageOfText) (false, []) =
        .ok (pageOfBoldText, true, _) from rfl)
  obtain rfl : 2 = top := Option.some.inj htop
  rw [hlaw 3 0 hreach (by decide)]
  exact if_pos (by decide)

end WikiHtml.Substitution
