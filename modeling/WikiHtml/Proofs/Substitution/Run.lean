-- What a walk does, step by step and without fuel: lists, single held elements and tables go one
-- way. A run only tells of places that were in good order when they were entered, so the induction
-- over runs has the outlines at hand.
import WikiHtml.Proofs.Substitution.Callback

namespace WikiHtml.Substitution

variable {σ ε : Type}

/-- What is put into a place: what is left of the part that was there, or an empty list. -/
def patch (t : Tree) : Option Outline → Outline × Tree
  | some o => (o, t)
  | none => (.node t.size [], t.addEmpty.2)

theorem orEmpty_eq_patch (t : Tree) (r : Option Outline) :
    orEmpty t (r.map Outline.id) = ((patch t r).1.id, (patch t r).2) := by
  cases r <;> rfl

mutual

/-- What becomes of a part of a tree: it is left out, or an outline is left of it. The visits are
those that were made on the way, first one first. -/
inductive Run (c : Callback σ ε) (top : Option NodeId) :
    Outline → List NodeId → Tree → σ → Option Outline → Tree → σ → List Visit → Prop
  | list {id : NodeId} {held held' : List Outline} {above : List NodeId} {t t' : Tree} {s s' : σ}
      {visits : List Visit}
      (site : t.Site (.node id held) above top) (isList : (t.element id).isList = true)
      (rest : RunHeld c top id [] held above t s held' t' s' visits) :
      Run c top (.node id held) above t s (some (.node id held')) t' s' visits
  | gone {o : Outline} {above : List NodeId} {t : Tree} {s s' : σ} {m : Move}
      (site : t.Site o above top) (isList : (t.element o.id).isList = false)
      (decided : c o.id t s = .ok (m, s')) (taken : m.take t o.id = (none, t)) :
      Run c top o above t s none t s' [⟨t, o.id, m⟩]
  | stays {o : Outline} {new : NodeId} {held held' : List Outline} {above : List NodeId}
      {t t₁ t' : Tree} {s s₁ s' : σ} {m : Move} {visits : List Visit}
      (site : t.Site o above top) (isList : (t.element o.id).isList = false)
      (decided : c o.id t s = .ok (m, s₁)) (taken : m.take t o.id = (some new, t₁))
      (site' : t₁.Site (.node new held) above top)
      (regrown : t.Regrown t₁ o.ids (.node new held)) (root : t₁.root = t.root)
      (leads : m.Leads t t₁ o (.node new held))
      (rest : RunHeld c top new [] held above t₁ s₁ held' t' s' visits) :
      Run c top o above t s (some (.node new held')) t' s' (⟨t, o.id, m⟩ :: visits)

/-- What becomes of the places of a holder, where those in front are done. -/
inductive RunHeld (c : Callback σ ε) (top : Option NodeId) :
    NodeId → List Outline → List Outline → List NodeId → Tree → σ →
    List Outline → Tree → σ → List Visit → Prop
  | done {p : NodeId} {front : List Outline} {above : List NodeId} {t : Tree} {s : σ}
      (midway : t.Midway p front [] above top) : RunHeld c top p front [] above t s front t s []
  | filled {p : NodeId} {front rest held' : List Outline} {o : Outline} {above : List NodeId}
      {t t₁ t' : Tree} {s s₁ s' : σ} {r : Option Outline} {visits later : List Visit}
      (midway : t.Midway p front (o :: rest) above top)
      (run : Run c top o (p :: above) t s r t₁ s₁ visits)
      (stays : r = none → (t.element p).isList = false)
      (regrown : t.Regrown (patch t₁ r).2 o.ids (patch t₁ r).1)
      (others : RunHeld c top p (front ++ [(patch t₁ r).1]) rest above
        ((patch t₁ r).2.refit p front.length (patch t₁ r).1.id) s₁ held' t' s' later) :
      RunHeld c top p front (o :: rest) above t s held' t' s' (visits ++ later)
  | dropped {p : NodeId} {front rest held' : List Outline} {o : Outline} {above : List NodeId}
      {t t₁ t' : Tree} {s s₁ s' : σ} {visits later : List Visit}
      (midway : t.Midway p front (o :: rest) above top)
      (run : Run c top o (p :: above) t s none t₁ s₁ visits)
      (isList : (t.element p).isList = true) (changes : t.Changes t₁ o.ids)
      (others : RunHeld c top p front rest above (t₁.takeOut p front.length) s₁ held' t' s'
        later) :
      RunHeld c top p front (o :: rest) above t s held' t' s' (visits ++ later)

end

section

variable {c : Callback σ ε} {top : Option NodeId}
  {P : Outline → List NodeId → Tree → σ → Option Outline → Tree → σ → List Visit → Prop}
  {Q : NodeId → List Outline → List Outline → List NodeId → Tree → σ → List Outline → Tree → σ →
    List Visit → Prop}

/-- Induction over runs: `P` speaks of a part of the tree, and `Q` of the places of a holder. -/
theorem run_induct
    (list : ∀ {id held held' above t t' s s' visits}, t.Site (.node id held) above top →
      (t.element id).isList = true → RunHeld c top id [] held above t s held' t' s' visits →
      Q id [] held above t s held' t' s' visits →
      P (.node id held) above t s (some (.node id held')) t' s' visits)
    (gone : ∀ {o above t s s' m}, t.Site o above top → (t.element o.id).isList = false →
      c o.id t s = .ok (m, s') → m.take t o.id = (none, t) →
      P o above t s none t s' [⟨t, o.id, m⟩])
    (stays : ∀ {o new held held' above t t₁ t' s s₁ s' m visits}, t.Site o above top →
      (t.element o.id).isList = false → c o.id t s = .ok (m, s₁) →
      m.take t o.id = (some new, t₁) → t₁.Site (.node new held) above top →
      t.Regrown t₁ o.ids (.node new held) → t₁.root = t.root →
      m.Leads t t₁ o (.node new held) →
      RunHeld c top new [] held above t₁ s₁ held' t' s' visits →
      Q new [] held above t₁ s₁ held' t' s' visits →
      P o above t s (some (.node new held')) t' s' (⟨t, o.id, m⟩ :: visits))
    (done : ∀ {p front above t s}, t.Midway p front [] above top →
      Q p front [] above t s front t s [])
    (filled : ∀ {p front rest held' o above t t₁ t' s s₁ s' r visits later},
      t.Midway p front (o :: rest) above top → Run c top o (p :: above) t s r t₁ s₁ visits →
      (r = none → (t.element p).isList = false) →
      t.Regrown (patch t₁ r).2 o.ids (patch t₁ r).1 →
      RunHeld c top p (front ++ [(patch t₁ r).1]) rest above
        ((patch t₁ r).2.refit p front.length (patch t₁ r).1.id) s₁ held' t' s' later →
      P o (p :: above) t s r t₁ s₁ visits →
      Q p (front ++ [(patch t₁ r).1]) rest above
        ((patch t₁ r).2.refit p front.length (patch t₁ r).1.id) s₁ held' t' s' later →
      Q p front (o :: rest) above t s held' t' s' (visits ++ later))
    (dropped : ∀ {p front rest held' o above t t₁ t' s s₁ s' visits later},
      t.Midway p front (o :: rest) above top →
      Run c top o (p :: above) t s none t₁ s₁ visits → (t.element p).isList = true →
      t.Changes t₁ o.ids →
      RunHeld c top p front rest above (t₁.takeOut p front.length) s₁ held' t' s' later →
      P o (p :: above) t s none t₁ s₁ visits →
      Q p front rest above (t₁.takeOut p front.length) s₁ held' t' s' later →
      Q p front (o :: rest) above t s held' t' s' (visits ++ later)) :
    (∀ {o above t s r t' s' visits}, Run c top o above t s r t' s' visits →
      P o above t s r t' s' visits) ∧
    (∀ {p front rest above t s held' t' s' visits},
      RunHeld c top p front rest above t s held' t' s' visits →
      Q p front rest above t s held' t' s' visits) := by
  refine ⟨fun h => ?_, fun h => ?_⟩
  · exact @Run.rec σ ε c top (fun o above t s r t' s' visits _ => P o above t s r t' s' visits)
      (fun p front rest above t s held' t' s' visits _ =>
        Q p front rest above t s held' t' s' visits)
      (fun a b d e => list a b d e) (fun a b d e => gone a b d e)
      (fun a b d e f g i j k l => stays a b d e f g i j k l) (fun a => done a)
      (fun a b d e f g i => filled a b d e f g i) (fun a b d e f g i => dropped a b d e f g i)
      _ _ _ _ _ _ _ _ h
  · exact @RunHeld.rec σ ε c top (fun o above t s r t' s' visits _ => P o above t s r t' s' visits)
      (fun p front rest above t s held' t' s' visits _ =>
        Q p front rest above t s held' t' s' visits)
      (fun a b d e => list a b d e) (fun a b d e => gone a b d e)
      (fun a b d e f g i j k l => stays a b d e f g i j k l) (fun a => done a)
      (fun a b d e f g i => filled a b d e f g i) (fun a b d e f g i => dropped a b d e f g i)
      _ _ _ _ _ _ _ _ _ _ h

end

/-! ## What a run changes -/

theorem regrown_patch {t t' : Tree} {r : Option Outline} {own : List NodeId}
    (hc : t.Changes t' own) (hr : ∀ o', r = some o' → t.Regrown t' own o') :
    t.Regrown (patch t' r).2 own (patch t' r).1 := by
  cases r with
  | none => exact .empty hc
  | some o' => exact hr o' rfl

theorem grows_patch (t : Tree) (r : Option Outline) : t.Grows (patch t r).2 := by
  cases r with
  | none => exact (Tree.changes_add t none (by simp [Element.children])).toGrows
  | some o => exact .refl t

theorem root_patch (t : Tree) (r : Option Outline) : (patch t r).2.root = t.root := by
  cases r with
  | none => exact Tree.root_add ..
  | some o => rfl

/-- A run changes nothing but the part of the tree that it goes through, and what it leaves there is
made of the nodes of that part and of new ones. -/
theorem run_changes {c : Callback σ ε} {top : Option NodeId} :
    (∀ {o above t s r t' s' visits}, Run c top o above t s r t' s' visits →
      t.Changes t' o.ids ∧ t'.root = t.root ∧ ∀ o', r = some o' → t.Regrown t' o.ids o') ∧
    (∀ {p front rest above t s held' t' s' visits},
      RunHeld c top p front rest above t s held' t' s' visits →
      t.Changes t' (p :: rest.flatMap Outline.ids) ∧ t'.root = t.root ∧
      t'.Midway p held' [] above top ∧ ∃ mid, held' = front ++ mid ∧
      ∀ x ∈ mid.flatMap Outline.ids, x ∈ rest.flatMap Outline.ids ∨ t.size ≤ x) := by
  refine run_induct ?_ ?_ ?_ ?_ ?_ ?_
  · rintro id held held' above t t' s s' visits site hl _ ⟨hc, hroot, hm, mid, hmid, hw⟩
    rw [Outline.ids_node]
    refine ⟨hc, hroot, fun o' ho' => ?_⟩
    obtain rfl := Option.some.inj ho'
    obtain rfl : held' = mid := hmid
    refine ⟨hc, by simpa using hm.spans, by simpa using hm.nodup, fun x hx => ?_⟩
    rw [Outline.ids_node, List.mem_cons] at hx
    rcases hx with rfl | hx
    · exact Or.inl (by simp)
    · exact (hw x hx).imp_left (List.mem_cons_of_mem _)
  · intro o above t s s' m site _ _ _
    exact ⟨.refl t _, rfl, by simp⟩
  · rintro o new held held' above t t₁ t' s s₁ s' m visits site _ _ _ site' hr hroot₁ _ _
      ⟨hc, hroot, hm, mid, hmid, hw⟩
    obtain rfl : held' = mid := hmid
    have hown : ∀ x ∈ new :: held.flatMap Outline.ids, x ∈ o.ids ∨ t.size ≤ x := by
      intro x hx
      exact hr.within x (by rwa [Outline.ids_node])
    have hchanges : t.Changes t' o.ids := hr.changes.trans hc hown
    refine ⟨hchanges, hroot.trans hroot₁, fun o' ho' => ?_⟩
    obtain rfl := Option.some.inj ho'
    refine ⟨hchanges, by simpa using hm.spans, by simpa using hm.nodup, fun x hx => ?_⟩
    rw [Outline.ids_node, List.mem_cons] at hx
    rcases hx with rfl | hx
    · exact hown x (by simp)
    · rcases hw x hx with hx | hx
      · exact hown x (by simp [hx])
      · exact Or.inr (Nat.le_trans hr.changes.size_le hx)
  · intro p front above t s hm
    exact ⟨.refl t _, rfl, hm, [], by simp, by simp⟩
  · rintro p front rest held' o above t t₁ t' s s₁ s' r visits later hm _ _ hr _ ⟨_, hroot₁, _⟩
      ⟨hc, hroot, hm', mid, hmid, hw⟩
    have hfill := (hm.fill hr).2
    refine ⟨?_, ?_, hm', (patch t₁ r).1 :: mid, by rw [hmid]; simp, fun x hx => ?_⟩
    · exact hfill.next hc
    · rw [hroot, Tree.root_refit, root_patch, hroot₁]
    · rcases List.mem_append.mp hx with hx | hx
      · exact (hr.within x hx).imp_left (List.mem_append_left _)
      · exact (hw x hx).imp (List.mem_append_right _) (Nat.le_trans hfill.size_le)
  · rintro p front rest held' o above t t₁ t' s s₁ s' visits later hm _ hl hch _ ⟨_, hroot₁, _⟩
      ⟨hc, hroot, hm', mid, hmid, hw⟩
    have hdrop := (hm.drop hch hl).2
    obtain ⟨hk, _, _⟩ := hm.child_after hch
    refine ⟨?_, ?_, hm', mid, hmid, fun x hx => ?_⟩
    · exact hdrop.next hc
    · rw [hroot, Tree.root_takeOut ((hm.unchanged hch).1 ▸ hl) hk, hroot₁]
    · exact (hw x hx).imp (List.mem_append_right _) (Nat.le_trans hdrop.size_le)

/-! ## Visits -/

/-- The visits are made one after another, in a part of the tree that is in good order then. -/
structure Visit.Within (v : Visit) (top : Option NodeId) (t t' : Tree) (own : List NodeId) :
    Prop where
  before : t.Grows v.tree
  after : v.tree.Grows t'
  offered : (v.tree.element v.node).isList = false
  site : ∃ o above, o.id = v.node ∧ v.tree.Site o above top
  own_or_new : v.node ∈ own ∨ t.size ≤ v.node

theorem Visit.Within.lt_size {v : Visit} {top : Option NodeId} {t t' : Tree} {own : List NodeId}
    (h : v.Within top t t' own) : v.node < t'.size := by
  obtain ⟨o, above, ho, hs⟩ := h.site
  exact ho ▸ Nat.lt_of_lt_of_le hs.stands.spans.inside h.after.size_le

theorem Visit.Within.mono {v : Visit} {top : Option NodeId} {t t₁ t₂ t' : Tree}
    {own own' : List NodeId} (h : v.Within top t₁ t₂ own) (hb : t.Grows t₁) (ha : t₂.Grows t')
    (ho : ∀ x ∈ own, x ∈ own' ∨ t.size ≤ x) : v.Within top t t' own' where
  before := hb.trans h.before
  after := h.after.trans ha
  offered := h.offered
  site := h.site
  own_or_new := h.own_or_new.elim (ho v.node) fun hm => Or.inr (Nat.le_trans hb.size_le hm)

/-- Every visit of a run is to a node of the part that it goes through, or to a new one. -/
theorem run_visits {c : Callback σ ε} {top : Option NodeId} :
    (∀ {o above t s r t' s' visits}, Run c top o above t s r t' s' visits →
      ∀ v ∈ visits, v.Within top t t' o.ids) ∧
    (∀ {p front rest above t s held' t' s' visits},
      RunHeld c top p front rest above t s held' t' s' visits →
      ∀ v ∈ visits, v.Within top t t' (rest.flatMap Outline.ids)) := by
  refine run_induct ?_ ?_ ?_ ?_ ?_ ?_
  · intro id held held' above t t' s s' visits _ _ _ ih v hv
    refine (ih v hv).mono (.refl t) (.refl t') fun x hx => Or.inl ?_
    exact Outline.ids_node id held ▸ List.mem_cons_of_mem id hx
  · intro o above t s s' m site hl _ _ v hv
    obtain rfl := List.mem_singleton.mp hv
    exact ⟨.refl t, .refl t, hl, ⟨o, above, rfl, site⟩, Or.inl o.id_mem_ids⟩
  · intro o new held held' above t t₁ t' s s₁ s' m visits site hl _ _ _ hr _ _ hrest ih v hv
    have hgrows := (run_changes.2 hrest).1.toGrows
    rcases List.mem_cons.mp hv with rfl | hv
    · exact ⟨.refl t, hr.changes.toGrows.trans hgrows, hl, ⟨o, above, rfl, site⟩,
        Or.inl o.id_mem_ids⟩
    · refine (ih v hv).mono hr.changes.toGrows (.refl t') fun x hx => hr.within x ?_
      exact Outline.ids_node new held ▸ List.mem_cons_of_mem new hx
  · intro p front above t s _ v hv
    simp at hv
  · intro p front rest held' o above t t₁ t' s s₁ s' r visits later hm _ _ hr hrest ih ih' v hv
    have hgrows := (run_changes.2 hrest).1.toGrows
    rcases List.mem_append.mp hv with hv | hv
    · have hafter := (grows_patch t₁ r).trans ((hm.grows_fill hr).trans hgrows)
      refine (ih v hv).mono (.refl t) hafter fun x hx => Or.inl ?_
      exact List.mem_append_left _ hx
    · refine (ih' v hv).mono (hm.fill hr).2.toGrows (.refl t') fun x hx => Or.inl ?_
      exact List.mem_append_right _ hx
  · intro p front rest held' o above t t₁ t' s s₁ s' visits later hm _ hl hch hrest ih ih' v hv
    have hgrows := (run_changes.2 hrest).1.toGrows
    rcases List.mem_append.mp hv with hv | hv
    · refine (ih v hv).mono (.refl t) ((hm.grows_drop hch hl).trans hgrows) fun x hx => Or.inl ?_
      exact List.mem_append_left _ hx
    · refine (ih' v hv).mono (hm.drop hch hl).2.toGrows (.refl t') fun x hx => Or.inl ?_
      exact List.mem_append_right _ hx

/-- What was done with a node is what the callback had decided. -/
theorem run_decided {c : Callback σ ε} {top : Option NodeId} :
    (∀ {o above t s r t' s' visits}, Run c top o above t s r t' s' visits →
      ∀ v ∈ visits, ∃ s s', c v.node v.tree s = .ok (v.move, s')) ∧
    (∀ {p front rest above t s held' t' s' visits},
      RunHeld c top p front rest above t s held' t' s' visits →
      ∀ v ∈ visits, ∃ s s', c v.node v.tree s = .ok (v.move, s')) := by
  refine run_induct ?_ ?_ ?_ ?_ ?_ ?_
  · intro id held held' above t t' s s' visits _ _ _ ih
    exact ih
  · intro o above t s s' m _ _ hc _ v hv
    obtain rfl := List.mem_singleton.mp hv
    exact ⟨s, s', hc⟩
  · intro o new held held' above t t₁ t' s s₁ s' m visits _ _ hc _ _ _ _ _ _ ih v hv
    rcases List.mem_cons.mp hv with rfl | hv
    · exact ⟨s, s₁, hc⟩
    · exact ih v hv
  · intro p front above t s _ v hv
    simp at hv
  · intro p front rest held' o above t t₁ t' s s₁ s' r visits later _ _ _ _ _ ih ih' v hv
    exact (List.mem_append.mp hv).elim (ih v) (ih' v)
  · intro p front rest held' o above t t₁ t' s s₁ s' visits later _ _ _ _ _ ih ih' v hv
    exact (List.mem_append.mp hv).elim (ih v) (ih' v)

/-- A node that took the place of an offered one is still there in the end. -/
theorem run_answers {c : Callback σ ε} {top : Option NodeId} :
    (∀ {o above t s r t' s' visits}, Run c top o above t s r t' s' visits →
      ∀ v ∈ visits, ∀ new, (v.move.take v.tree v.node).1 = some new →
        ∃ o', r = some o' ∧ new ∈ o'.ids) ∧
    (∀ {p front rest above t s held' t' s' visits},
      RunHeld c top p front rest above t s held' t' s' visits →
      ∀ v ∈ visits, ∀ new, (v.move.take v.tree v.node).1 = some new →
        new ∈ held'.flatMap Outline.ids) := by
  refine run_induct ?_ ?_ ?_ ?_ ?_ ?_
  · intro id held held' above t t' s s' visits _ _ _ ih v hv new hnew
    refine ⟨_, rfl, ?_⟩
    rw [Outline.ids_node]
    exact List.mem_cons_of_mem id (ih v hv new hnew)
  · intro o above t s s' m _ _ _ ht v hv new hnew
    obtain rfl := List.mem_singleton.mp hv
    rw [ht] at hnew
    cases hnew
  · intro o top' held held' above t t₁ t' s s₁ s' m visits _ _ _ ht _ _ _ _ _ ih v hv new hnew
    refine ⟨_, rfl, ?_⟩
    rw [Outline.ids_node, List.mem_cons]
    rcases List.mem_cons.mp hv with rfl | hv
    · rw [ht] at hnew
      exact Or.inl (Option.some.inj hnew).symm
    · exact Or.inr (ih v hv new hnew)
  · intro p front above t s _ v hv
    simp at hv
  · intro p front rest held' o above t t₁ t' s s₁ s' r visits later _ _ _ _ hrest ih ih' v hv new
      hnew
    rcases List.mem_append.mp hv with hv | hv
    · obtain ⟨o', rfl, hm⟩ := ih v hv new hnew
      obtain ⟨_, _, _, mid, hmid, _⟩ := run_changes.2 hrest
      rw [hmid]
      exact List.mem_flatMap.mpr ⟨o', by simp [patch], hm⟩
    · exact ih' v hv new hnew
  · intro p front rest held' o above t t₁ t' s s₁ s' visits later _ _ _ _ _ ih ih' v hv new hnew
    rcases List.mem_append.mp hv with hv | hv
    · obtain ⟨o', ho', _⟩ := ih v hv new hnew
      cases ho'
    · exact ih' v hv new hnew

theorem Visit.Within.ne {v : Visit} {top : Option NodeId} {t t' : Tree} {own : List NodeId}
    {x : Nat} (h : v.Within top t t' own) (hx : x < t.size) (hn : x ∉ own) : v.node ≠ x :=
  fun he => h.own_or_new.elim (he ▸ hn) (Nat.not_le.mpr (he ▸ hx))

/-- No node is visited in two places. -/
theorem nodes_disjoint {top : Option NodeId} {t t₁ t₂ t' : Tree} {p : NodeId}
    {front rest : List Outline} {o : Outline} {above : List NodeId} {visits later : List Visit}
    (hm : t.Midway p front (o :: rest) above top) (hv : ∀ v ∈ visits, v.Within top t t₁ o.ids)
    (hl : ∀ v ∈ later, v.Within top t₂ t' (rest.flatMap Outline.ids))
    (hsize : t₁.size ≤ t₂.size) : (visits.map (·.node)).Disjoint (later.map (·.node)) := by
  intro x hx hx'
  obtain ⟨v, hvm, rfl⟩ := List.mem_map.mp hx
  obtain ⟨w, hwm, he⟩ := List.mem_map.mp hx'
  rcases (hl w hwm).own_or_new with hr | hr
  · obtain ⟨hlt, hno⟩ := hm.elsewhere (Or.inr (Or.inr hr))
    exact (hv v hvm).ne hlt hno he.symm
  · refine absurd (Nat.le_trans hsize hr) (Nat.not_le.mpr ?_)
    rw [he]
    exact (hv v hvm).lt_size

/-- Where no element is put around a node, every node is offered at most once. -/
theorem run_offers_once {c : Callback σ ε} {top : Option NodeId} :
    (∀ {o above t s r t' s' visits}, Run c top o above t s r t' s' visits →
      (∀ v ∈ visits, v.move.isWrap = false) → (visits.map (·.node)).Nodup) ∧
    (∀ {p front rest above t s held' t' s' visits},
      RunHeld c top p front rest above t s held' t' s' visits →
      (∀ v ∈ visits, v.move.isWrap = false) → (visits.map (·.node)).Nodup) := by
  refine run_induct ?_ ?_ ?_ ?_ ?_ ?_
  · intro id held held' above t t' s s' visits _ _ _ ih hw
    exact ih hw
  · intro o above t s s' m _ _ _ _ _
    simp
  · intro o new held held' above t t₁ t' s s₁ s' m visits site _ _ _ _ hr _ hleads hrest ih hw
    have hin : o.id < t.size := site.stands.spans.inside
    have hold := Leads.not_held hleads (hw ⟨t, o.id, m⟩ (by simp)) site.stands.nodup hin
    rw [List.map_cons, List.nodup_cons]
    refine ⟨fun hm => ?_, ih fun v hv => hw v (List.mem_cons_of_mem _ hv)⟩
    obtain ⟨v, hv, he⟩ := List.mem_map.mp hm
    exact (run_visits.2 hrest v hv).ne (Nat.lt_of_lt_of_le hin hr.changes.size_le) hold he
  · intro p front above t s _ _
    simp
  · intro p front rest held' o above t t₁ t' s s₁ s' r visits later hm hrun _ hr hrest ih ih' hw
    rw [List.map_append, List.nodup_append']
    refine ⟨ih fun v hv => hw v (List.mem_append_left _ hv),
      ih' fun v hv => hw v (List.mem_append_right _ hv), ?_⟩
    refine nodes_disjoint hm (run_visits.1 hrun) (run_visits.2 hrest) ?_
    exact ((grows_patch t₁ r).trans (hm.grows_fill hr)).size_le
  · intro p front rest held' o above t t₁ t' s s₁ s' visits later hm hrun hl hch hrest ih ih' hw
    rw [List.map_append, List.nodup_append']
    refine ⟨ih fun v hv => hw v (List.mem_append_left _ hv),
      ih' fun v hv => hw v (List.mem_append_right _ hv), ?_⟩
    exact nodes_disjoint hm (run_visits.1 hrun) (run_visits.2 hrest) (hm.grows_drop hch hl).size_le

end WikiHtml.Substitution
