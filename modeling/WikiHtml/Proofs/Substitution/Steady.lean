-- What stays of a tree while a pass runs over it. A held node that the pass is done with stays in its
-- place, and a node all of whose held nodes are done stays as it is. So what a pass reads on its way is
-- still there in the end, but for what it still had to do.
import WikiHtml.Proofs.Substitution.PassRun
import WikiHtml.Proofs.Tree.Linked

namespace WikiHtml.Substitution

variable {done : Element Empty → Prop} {t t' t'' : Tree} {o : Outline}

/-! ## Steady trees -/

/-- A node that a pass leaves as it is. -/
def IsDone (done : Element Empty → Prop) (t : Tree) (x : NodeId) : Prop :=
  x < t.size ∧ done (t.element x).bare

theorem IsDone.grows {x : NodeId} (h : IsDone done t x) (hg : t.Grows t') : IsDone done t' x :=
  ⟨Nat.lt_of_lt_of_le h.1 hg.size_le, (hg.bare_eq h.1).symm ▸ h.2⟩

/-- The tree grew, and the nodes that are done are still held by the same ones; where all held nodes
are done, they are the same ones. -/
structure Steady (done : Element Empty → Prop) (t t' : Tree) : Prop extends t.Grows t' where
  holds : ∀ x < t.size, ∀ c ∈ (t.element x).children, IsDone done t c → c ∈ (t'.element x).children
  same : ∀ x < t.size, (∀ c ∈ (t.element x).children, IsDone done t c) →
    t'.element x = t.element x

theorem Steady.of_elements (hs : t.size ≤ t'.size) (hp : ∀ x < t.size, t'.span x = t.span x)
    (he : ∀ x < t.size, t'.element x = t.element x) : Steady done t t' where
  size_le := hs
  span_eq := hp
  reshaped x hx := he x hx ▸ .refl _
  holds x hx _ hc _ := he x hx ▸ hc
  same x hx _ := he x hx

theorem Steady.of_changes (h : t.Changes t' []) : Steady done t t' :=
  .of_elements h.size_le h.span_eq fun x hx => h.element_eq x hx (by simp)

theorem Steady.refl (t : Tree) : Steady done t t :=
  .of_elements (Nat.le_refl _) (fun _ _ => rfl) fun _ _ => rfl

theorem Steady.trans (h : Steady done t t') (h' : Steady done t' t'') : Steady done t t'' where
  toGrows := h.toGrows.trans h'.toGrows
  holds x hx c hc hd :=
    h'.holds x (Nat.lt_of_lt_of_le hx h.size_le) c (h.holds x hx c hc hd) (hd.grows h.toGrows)
  same x hx hd := by
    have he := h.same x hx hd
    rw [h'.same x (Nat.lt_of_lt_of_le hx h.size_le) ?_, he]
    rw [he]
    exact fun c hc => (hd c hc).grows h.toGrows

/-- What is below a node stays as it is if all of it is done. -/
theorem Steady.elements (h : Steady done t t') (hs : t.Spans o)
    (hd : ∀ x ∈ o.ids, done (t.element x).bare) : ∀ x ∈ o.ids, t'.element x = t.element x := by
  intro x hx
  refine h.same x (hs.lt_size x hx) fun c hc => ?_
  have hmem : c ∈ o.ids := Outline.mem_ids_of_edge (hs.edge_iff.mpr ⟨hx, hc⟩)
  exact ⟨hs.lt_size c hmem, hd c hmem⟩

theorem Steady.spans (h : Steady done t t') (hs : t.Spans o)
    (hd : ∀ x ∈ o.ids, done (t.element x).bare) : t'.Spans o :=
  hs.congr h.size_le (h.elements hs hd)

theorem Steady.document?_eq (h : Steady done t t') (hs : t.Spans o) (hn : o.ids.Nodup)
    (hd : ∀ x ∈ o.ids, done (t.element x).bare) : t'.document? o.id = t.document? o.id := by
  rw [Tree.document?_eq_along (h.spans hs hd) hn, Tree.document?_eq_along hs hn,
    Tree.along_congr (h.elements hs hd) fun x hx => h.span_eq x (hs.lt_size x hx)]

/-- Where nodes that hold others are done, the way down to a node that is done stays. -/
theorem Steady.reaches (h : Steady done t t')
    (hleaf : ∀ x < t.size, ¬ done (t.element x).bare → (t.element x).children = []) (hs : t.Spans o)
    {x : NodeId} (hx : x ∈ o.ids) (hd : done (t.element x).bare) : t'.Reaches o.id x := by
  induction hs with
  | @node id held inside holds rest ih =>
    rw [Outline.ids_node, List.mem_cons, List.mem_flatMap] at hx
    rcases hx with rfl | ⟨c, hc, hx⟩
    · exact .refl
    · have hdone : done (t.element c.id).bare := by
        cases c with
        | node y below =>
          rw [Outline.ids_node, List.mem_cons] at hx
          rcases hx with rfl | hx
          · exact hd
          · refine Classical.byContradiction fun hnot => ?_
            have hnone := hleaf y (rest _ hc).inside hnot
            rw [(rest _ hc).children, List.map_eq_nil_iff] at hnone
            simp [hnone] at hx
      have hheld : c.id ∈ (t.element id).children := by
        rw [holds]
        exact List.mem_map_of_mem hc
      exact .head (h.holds id inside c.id hheld ⟨(rest c hc).inside, hdone⟩) (ih c hc hx)

/-! ## Steps of a run -/

/-- A pass leaves all nodes that are there as they are when it puts a document in. -/
theorem changes_take (verdict : Verdict) (t : Tree) (id : NodeId) :
    t.Changes (verdict.move.take t id).2 [] := by
  cases verdict with
  | keep =>
    simp only [Verdict.move, Move.take, Move.run, if_true]
    exact .refl t []
  | delete => exact .refl t []
  | put document =>
    obtain ⟨o, hid, hplanted⟩ := t.addDocument_planted document
    have hnew : t.size ≤ o.id := ((hplanted.fresh o.id).mp (by simp [o.id_mem_ids])).1
    have hin : o.id < (t.addDocument document).2.size :=
      (hplanted.stands o (by simp)).spans.inside
    simp only [Verdict.move, Move.take, Move.run, ← hid]
    split
    · exact hplanted.changes
    · refine ⟨⟨?_, fun x hx => ?_, fun x hx => ?_⟩, fun x hx hn => ?_, fun x hx hn => ?_⟩
      · simpa using hplanted.changes.size_le
      · simpa using hplanted.changes.span_eq x hx
      · simpa using hplanted.changes.reshaped x hx
      · simpa using hplanted.changes.element_eq x hx hn
      · have hne : x ≠ o.id := fun he => Nat.not_le.mpr hx (he ▸ hnew)
        rw [Tree.parent_setParent _ _ _ hin, if_neg hne]
        exact hplanted.changes.parent_eq x hx hn

theorem changes_patch (t : Tree) (r : Option Outline) : t.Changes (patch t r).2 [] := by
  cases r with
  | some o => exact .refl t []
  | none => exact Tree.changes_add t none (by simp [Element.children])

section

variable {p old new : NodeId} {k : Nat}

theorem element_refit_self (hp : p < t.size) (hk : (t.element p).children[k]? = some old)
    (x : NodeId) : (t.refit p k old).element x = t.element x := by
  obtain ⟨hlt, hget⟩ := List.getElem?_eq_some_iff.mp hk
  rw [Tree.element_refit hp, ← hget, List.set_getElem_self, Element.refill_children]
  split
  · rename_i hxp
    rw [hxp]
  · rfl

/-- A place is filled again with the node that was there, or that was not done. -/
theorem steady_refit (hp : p < t.size) (hk : (t.element p).children[k]? = some old)
    (ho : old < t.size) (hn : new < t.size) (hkept : IsDone done t old → new = old) :
    Steady done t (t.refit p k new) := by
  have hgrows := (Tree.changes_refit hp hk ho hn).toGrows
  by_cases hsame : new = old
  · subst hsame
    exact .of_elements hgrows.size_le hgrows.span_eq fun x _ => element_refit_self hp hk x
  · refine ⟨hgrows, fun x _ c hc hd => ?_, fun x _ hd => ?_⟩
    · by_cases hxp : x = p
      · subst hxp
        obtain ⟨j, hj⟩ := List.mem_iff_getElem?.mp hc
        have hjk : k ≠ j := by
          rintro rfl
          obtain rfl : old = c := Option.some.inj (hk.symm.trans hj)
          exact hsame (hkept hd)
        rw [Tree.children_refit hp]
        exact List.mem_of_getElem? ((List.getElem?_set_ne hjk).trans hj)
      · rwa [Tree.element_refit hp, if_neg hxp]
    · have hxp : x ≠ p := by
        rintro rfl
        exact hsame (hkept (hd old (List.mem_of_getElem? hk)))
      rw [Tree.element_refit hp, if_neg hxp]

/-- A member is taken out that was not done. -/
theorem steady_takeOut (hl : (t.element p).isList = true)
    (hk : (t.element p).children[k]? = some old) (hp : p < t.size) (ho : old < t.size)
    (hnot : ¬ IsDone done t old) : Steady done t (t.takeOut p k) := by
  refine ⟨(Tree.changes_takeOut hl hk hp ho).toGrows, fun x _ c hc hd => ?_, fun x _ hd => ?_⟩
  · by_cases hxp : x = p
    · subst hxp
      rw [Tree.children_takeOut hl hk hp]
      obtain ⟨j, hj⟩ := List.mem_iff_getElem?.mp hc
      have hjk : j ≠ k := by
        rintro rfl
        obtain rfl : old = c := Option.some.inj (hk.symm.trans hj)
        exact hnot hd
      exact List.mem_eraseIdx_iff_getElem?.mpr ⟨j, hjk, hj⟩
    · rwa [Tree.element_takeOut hl hk hp, if_neg hxp]
  · have hxp : x ≠ p := by
      rintro rfl
      exact hnot (hd old (List.mem_of_getElem? hk))
    rw [Tree.element_takeOut hl hk hp, if_neg hxp]

end

/-! ## Runs -/

section

variable {pass : Pass} {top : Option NodeId}

/-- A node that is done stays in its place. -/
theorem run_keeps_done (h : pass.Settles done) {above : List NodeId} {s s' : Unit}
    {r : Option Outline} {visits : List Visit}
    (hrun : Run pass.callback top o above t s r t' s' visits) (hd : done (t.element o.id).bare) :
    ∃ o', r = some o' ∧ o'.id = o.id := by
  have hkeep : ∀ {m : Move} {s s' : Unit}, pass.callback o.id t s = .ok (m, s') →
      m.take t o.id = (some o.id, t) := by
    intro m s s' hc
    obtain ⟨verdict, hv, rfl⟩ := pass_decided.mp hc
    obtain rfl : verdict = .keep := Except.ok.inj (hv.symm.trans (h.keep_iff.mpr hd))
    simp only [Verdict.move, Move.take, Move.run, if_true]
  cases hrun with
  | list site isList rest => exact ⟨_, rfl, rfl⟩
  | gone site isList decided taken =>
    rw [hkeep decided] at taken
    cases taken
  | stays site isList decided taken =>
    rw [hkeep decided] at taken
    cases taken
    exact ⟨_, rfl, rfl⟩

/-- A run keeps what is done, up to each visit and from there to the end. -/
theorem run_steady (h : pass.Settles done) :
    (∀ {o above t s r t' s' visits}, Run pass.callback top o above t s r t' s' visits →
      Steady done t t' ∧ ∀ v ∈ visits, Steady done t v.tree ∧
        Steady done (v.move.take v.tree v.node).2 t') ∧
    (∀ {p front rest above t s held' t' s' visits},
      RunHeld pass.callback top p front rest above t s held' t' s' visits →
      Steady done t t' ∧ ∀ v ∈ visits, Steady done t v.tree ∧
        Steady done (v.move.take v.tree v.node).2 t') := by
  refine run_induct ?_ ?_ ?_ ?_ ?_ ?_
  · intro id held held' above t t' s s' visits _ _ _ ih
    exact ih
  · intro o above t s s' m _ _ _ ht
    refine ⟨.refl t, fun v hv => ?_⟩
    obtain rfl := List.mem_singleton.mp hv
    dsimp only
    rw [ht]
    exact ⟨.refl t, .refl t⟩
  · rintro o new held held' above t t₁ t' s s₁ s' m visits _ _ hc ht _ _ _ _ _ ⟨hrest, hv⟩
    have htake : Steady done t t₁ := by
      obtain ⟨verdict, _, rfl⟩ := pass_decided.mp hc
      have hchanges := changes_take verdict t o.id
      rw [ht] at hchanges
      exact .of_changes hchanges
    refine ⟨htake.trans hrest, fun v hm => ?_⟩
    rcases List.mem_cons.mp hm with rfl | hm
    · dsimp only
      rw [ht]
      exact ⟨.refl t, hrest⟩
    · exact ⟨htake.trans (hv v hm).1, (hv v hm).2⟩
  · intro p front above t s _
    exact ⟨.refl t, by simp⟩
  · rintro p front rest held' o above t t₁ t' s s₁ s' r visits later hm hrun _ hr _ ⟨hs, hv⟩
      ⟨hs', hv'⟩
    obtain ⟨hk, ho, hp⟩ := hm.child_after hr.changes
    have hfill : Steady done t₁ ((patch t₁ r).2.refit p front.length (patch t₁ r).1.id) := by
      refine (Steady.of_changes (changes_patch t₁ r)).trans
        (steady_refit hp hk ho hr.spans.inside fun hd => ?_)
      have hdone : done (t.element o.id).bare :=
        hr.changes.toGrows.bare_eq hm.site.stands.spans.inside ▸ hd.2
      obtain ⟨o', rfl, ho'⟩ := run_keeps_done h hrun hdone
      exact ho'
    refine ⟨hs.trans (hfill.trans hs'), fun v hmem => ?_⟩
    rcases List.mem_append.mp hmem with hmem | hmem
    · exact ⟨(hv v hmem).1, (hv v hmem).2.trans (hfill.trans hs')⟩
    · exact ⟨hs.trans (hfill.trans (hv' v hmem).1), (hv' v hmem).2⟩
  · rintro p front rest held' o above t t₁ t' s s₁ s' visits later hm hrun hl hch _ ⟨hs, hv⟩
      ⟨hs', hv'⟩
    obtain ⟨hk, ho, hp⟩ := hm.child_after hch
    have hdrop : Steady done t₁ (t₁.takeOut p front.length) := by
      refine steady_takeOut ((hm.unchanged hch).1 ▸ hl) hk hp ho fun hd => ?_
      have hdone : done (t.element o.id).bare :=
        hch.toGrows.bare_eq hm.site.stands.spans.inside ▸ hd.2
      obtain ⟨o', ho', _⟩ := run_keeps_done h hrun hdone
      cases ho'
    refine ⟨hs.trans (hdrop.trans hs'), fun v hmem => ?_⟩
    rcases List.mem_append.mp hmem with hmem | hmem
    · exact ⟨(hv v hmem).1, (hv v hmem).2.trans (hdrop.trans hs')⟩
    · exact ⟨hs.trans (hdrop.trans (hv' v hmem).1), (hv' v hmem).2⟩

end

end WikiHtml.Substitution
