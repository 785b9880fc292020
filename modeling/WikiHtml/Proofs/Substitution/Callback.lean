-- Callbacks, which say for each offered node what is to be done with it. Whatever they say, the
-- part of the tree that takes the place of the node is in good order again, below the same nodes.
import WikiHtml.Proofs.Tree.Site

namespace WikiHtml.Substitution

/-! ## Moves -/

/-- An element with one place, which is for a node that it is put around. -/
structure Frame where
  element : Element Unit
  single : element.children.length = 1

/-- What is done with an offered node: it stays, it is deleted, it gives way to the node that it
holds or to a document, or a new element is put around it. -/
inductive Move where
  | keep
  | delete
  | unwrap
  | replace (document : Document)
  | wrap (frame : Frame) (span : Option Span)

/-- Whether an element is put around the node. -/
def Move.isWrap : Move → Bool
  | .wrap _ _ => true
  | _ => false

/-- Does with a node what a move says. -/
def Move.run (t : Tree) (id : NodeId) : Move → Option NodeId × Tree
  | .keep => (some id, t)
  | .delete => (none, t)
  | .unwrap => (t.child? id, t)
  | .replace document =>
    let (new, t) := t.addDocument document
    (some new, t)
  | .wrap frame span =>
    let (new, t) := t.add (frame.element.refill [id]) span
    (some new, t)

/-- Does with a node what a move says, and makes the parent of the node that of the one in its
place. -/
def Move.take (m : Move) (t : Tree) (id : NodeId) : Option NodeId × Tree :=
  match m.run t id with
  | (none, t') => (none, t')
  | (some new, t') => (some new, if new = id then t' else t'.setParent new (t.parent id))

/-! ## Callbacks -/

variable {σ ε : Type}

/-- What is to be done with an offered node, decided from the tree and a state. -/
abbrev Callback (σ ε : Type) := NodeId → Tree → σ → Except ε (Move × σ)

/-- A callback as a rule. -/
def Callback.rule (c : Callback σ ε) : Rule σ ε := fun id t s => do
  let (move, s) ← c id t s
  let (new, t) := move.run t id
  return (new, t, s)

/-- An offered node, with the tree as it was then and what was done with the node. -/
structure Visit where
  tree : Tree
  node : NodeId
  move : Move

/-- The callback that also writes down something about each visit. -/
def Callback.noting {β : Type} (f : Visit → β) (c : Callback σ ε) : Callback (σ × List β) ε :=
  fun id t (s, notes) => do
    let (move, s) ← c id t s
    return (move, s, notes ++ [f ⟨t, id, move⟩])

/-- The callback that also writes down its visits. -/
def Callback.traced (c : Callback σ ε) : Callback (σ × List Visit) ε :=
  c.noting fun v => v

theorem offer_list {rule : Rule σ ε} {id : NodeId} {t : Tree} (s : σ)
    (h : (t.element id).isList = true) : offer rule id t s = .ok (some id, t, s) := by
  rw [offer, if_pos h]

theorem offer_fault {c : Callback σ ε} {id : NodeId} {t : Tree} {s : σ} {cause : ε}
    (h : (t.element id).isList = false) (hc : c id t s = .error cause) :
    offer c.rule id t s = .error (.fault cause) := by
  rw [offer, if_neg (by simp [h])]
  simp only [Callback.rule, hc]
  rfl

theorem offer_taken {c : Callback σ ε} {id : NodeId} {t : Tree} {s s' : σ} {m : Move}
    (h : (t.element id).isList = false) (hc : c id t s = .ok (m, s')) :
    offer c.rule id t s = .ok ((m.take t id).1, (m.take t id).2, s') := by
  have hrule : c.rule id t s = .ok ((m.run t id).1, (m.run t id).2, s') := by
    simp only [Callback.rule, hc]
    rfl
  rw [offer, if_neg (by simp [h]), hrule]
  rcases hr : m.run t id with ⟨_ | new, t'⟩ <;> simp only [Move.take, hr]

/-! ## The part that takes the place of a node -/

/-- How the outline that takes the place of another one is related to it. -/
def Move.Leads (m : Move) (t t' : Tree) (o o' : Outline) : Prop :=
  match m with
  | .keep => o' = o ∧ t' = t
  | .delete => False
  | .unwrap => o' ∈ o.held
  | .replace document => (∀ x ∈ o'.ids, t.size ≤ x) ∧ t'.shown o'.id = document
  | .wrap _ _ => o' = .node t.size [o]

theorem take_none {m : Move} {t t' : Tree} {id : NodeId} (h : m.take t id = (none, t')) :
    t' = t := by
  cases m with
  | delete => exact (Prod.mk.inj h).2.symm
  | unwrap =>
    rcases hc : t.child? id with _ | child
    · simp only [Move.take, Move.run, hc] at h
      exact (Prod.mk.inj h).2.symm
    · simp [Move.take, Move.run, hc] at h
  | _ => simp [Move.take, Move.run] at h

section

variable {t t' : Tree} {o o' : Outline} {above : List NodeId} {top : Option NodeId}

/-- An outline that is made of the nodes of another one and of new nodes takes its place. -/
theorem site_of_stands (h : t.Site o above top) (hc : t.Changes t' o.ids)
    (hs : t'.Stands [] o') (hw : ∀ x ∈ o'.ids, x ∈ o.ids ∨ t.size ≤ x) :
    (t'.setParent o'.id (t.parent o.id)).Site o' above top ∧
      t.Regrown (t'.setParent o'.id (t.parent o.id)) o.ids o' := by
  have hnew := hs.spans.inside
  have habove : ∀ x ∈ above, x < t.size ∧ x ∉ o.ids ∧ x ∉ o'.ids := by
    intro x hx
    obtain ⟨hlt, hno⟩ := h.apart x hx
    exact ⟨hlt, hno, fun hm => (hw x hm).elim hno (Nat.not_le.mpr hlt)⟩
  have hspans : (t'.setParent o'.id (t.parent o.id)).Spans o' :=
    hs.spans.congr (by simp) (by simp)
  have hchanges : t'.Changes (t'.setParent o'.id (t.parent o.id)) [o'.id] := by
    refine ⟨⟨by simp, by simp, fun x _ => ?_⟩, by simp, fun x _ hx => ?_⟩
    · rw [Tree.element_setParent]
      exact .refl _
    · rw [Tree.parent_setParent _ _ _ hnew, if_neg (by simpa using hx)]
  refine ⟨⟨⟨hspans, hs.nodup, fun e he => ?_⟩, ?_, h.distinct, fun x hx => ?_⟩,
    ⟨hc.trans hchanges ?_, hspans, hs.nodup, hw⟩⟩
  · rw [Tree.parent_setParent _ _ _ hnew, if_neg (Outline.held_ne_id hs.nodup he)]
    exact hs.linked e he
  · refine h.chain.move ?_ fun x hx => ?_
    · rw [Tree.parent_setParent _ _ _ hnew, if_pos rfl]
    · obtain ⟨hlt, hno, hno'⟩ := habove x hx
      have hne : x ≠ o'.id := fun he => hno' (he ▸ o'.id_mem_ids)
      rw [Tree.parent_setParent _ _ _ hnew, if_neg hne, hc.parent_eq x hlt hno]
  · obtain ⟨hlt, _, hno'⟩ := habove x hx
    exact ⟨Nat.lt_of_lt_of_le hlt (by simpa using hc.size_le), hno'⟩
  · intro x hx
    rw [List.mem_singleton.mp hx]
    exact hw _ o'.id_mem_ids

theorem leads_unwrap (h : t.Site o above top) {child : NodeId} (hc : t.child? o.id = some child) :
    ∃ c ∈ o.held, c.id = child ∧ c.id ≠ o.id := by
  cases o with
  | node id held =>
    have hchildren : child ∈ (t.element id).children := Element.mem_children_of_child? hc
    rw [h.stands.spans.children] at hchildren
    obtain ⟨c, hm, hid⟩ := List.mem_map.mp hchildren
    have hn := h.stands.nodup
    rw [Outline.ids_node, List.nodup_cons] at hn
    refine ⟨c, hm, hid, fun he => hn.1 ?_⟩
    exact List.mem_flatMap.mpr ⟨c, hm, by simpa [he] using c.id_mem_ids⟩

/-- Where a node stays or gives way to another one, the part of the tree that can be entered next
is in good order again, and it is made of the old nodes of the place and of new ones. -/
theorem take_some {m : Move} {new : NodeId} (h : t.Site o above top)
    (hm : m.take t o.id = (some new, t')) :
    ∃ o', o'.id = new ∧ t'.Site o' above top ∧ t.Regrown t' o.ids o' ∧ t'.root = t.root ∧
      m.Leads t t' o o' := by
  have hin : o.id < t.size := h.stands.spans.inside
  cases m with
  | keep =>
    simp only [Move.take, Move.run, if_true, Prod.mk.injEq, Option.some.injEq] at hm
    obtain ⟨rfl, rfl⟩ := hm
    exact ⟨o, rfl, h, ⟨.refl t _, h.stands.spans, h.stands.nodup, fun x hx => Or.inl hx⟩, rfl,
      rfl, rfl⟩
  | delete => simp [Move.take, Move.run] at hm
  | unwrap =>
    rcases hc : t.child? o.id with _ | child
    · simp [Move.take, Move.run, hc] at hm
    · obtain ⟨c, hheld, rfl, hne⟩ := leads_unwrap h hc
      simp only [Move.take, Move.run, hc, if_neg hne, Prod.mk.injEq, Option.some.injEq] at hm
      obtain ⟨rfl, rfl⟩ := hm
      have hs : t.Stands [] c := by
        cases o with
        | node id held => exact h.stands.held hheld
      obtain ⟨hsite, hregrown⟩ := site_of_stands h (.refl t _) hs fun x hx =>
        Or.inl (Outline.mem_ids_of_held hheld hx)
      exact ⟨c, rfl, hsite, hregrown, Tree.root_setParent .., hheld⟩
  | replace document =>
    obtain ⟨o', hid, ho'⟩ := t.addDocument_planted document
    have hfresh : ∀ x : Nat, x ∈ o'.ids → t.size ≤ x := fun x hx =>
      ((ho'.fresh x).mp (by simpa using hx)).1
    have hs : (t.addDocument document).2.Stands [] o' := ho'.stands o' (by simp)
    have hne : o'.id ≠ o.id := Nat.ne_of_gt (Nat.lt_of_lt_of_le hin (hfresh _ o'.id_mem_ids))
    simp only [Move.take, Move.run, ← hid, if_neg hne, Prod.mk.injEq, Option.some.injEq] at hm
    obtain ⟨rfl, rfl⟩ := hm
    obtain ⟨hsite, hregrown⟩ := site_of_stands h (ho'.changes.mono (by simp)) hs fun x hx =>
      Or.inr (hfresh x hx)
    refine ⟨o', rfl, hsite, hregrown, ?_, hfresh, ?_⟩
    · rw [Tree.root_setParent, ho'.root_eq]
    · rw [Tree.shown_congr hs.spans hs.nodup (by simp) (by simp) (by simp)]
      simpa using ho'.shown
  | wrap frame span =>
    have hchildren : (frame.element.refill [o.id]).children = [o.id] :=
      frame.element.children_refill [o.id] (Or.inr frame.single.symm)
    have hs : (t.add (frame.element.refill [o.id]) span).2.Stands [] (.node t.size [o]) :=
      Tree.Stands.add span (by simpa using hchildren) (by simpa using h.stands)
        (by simpa using h.stands.nodup) (by simp)
    have hc : t.Changes (t.add (frame.element.refill [o.id]) span).2 o.ids := by
      refine (Tree.changes_add t span ?_).mono ?_ <;> rw [hchildren] <;>
        simp only [List.mem_singleton, forall_eq]
      · exact hin
      · exact Or.inl o.id_mem_ids
    have hne : t.size ≠ o.id := Nat.ne_of_gt hin
    simp only [Move.take, Move.run, Tree.add_fst, if_neg hne, Prod.mk.injEq,
      Option.some.injEq] at hm
    obtain ⟨rfl, rfl⟩ := hm
    obtain ⟨hsite, hregrown⟩ := site_of_stands h hc hs fun x hx => by
      rw [Outline.ids_node, List.flatMap_singleton, List.mem_cons] at hx
      exact hx.elim (fun he => Or.inr (Nat.le_of_eq he.symm)) Or.inl
    exact ⟨.node t.size [o], rfl, hsite, hregrown, by simp, rfl⟩

/-- Unless an element is put around a node, it is not entered again. -/
theorem Leads.not_held {m : Move} {new : NodeId} {held : List Outline}
    (h : m.Leads t t' o (.node new held)) (hw : m.isWrap = false)
    (hn : o.ids.Nodup) (hin : o.id < t.size) : o.id ∉ held.flatMap Outline.ids := by
  cases o with
  | node id kept =>
    have hid : id ∉ kept.flatMap Outline.ids := by
      rw [Outline.ids_node, List.nodup_cons] at hn
      exact hn.1
    intro hm
    cases m with
    | keep =>
      obtain ⟨he, _⟩ := h
      cases he
      exact hid hm
    | delete => exact h
    | unwrap =>
      refine hid (List.mem_flatMap.mpr ⟨_, h, ?_⟩)
      rw [Outline.ids_node]
      exact List.mem_cons_of_mem _ hm
    | replace document =>
      refine Nat.not_le.mpr hin (h.1 id ?_)
      rw [Outline.ids_node]
      exact List.mem_cons_of_mem _ hm
    | wrap frame span => cases hw

end

end WikiHtml.Substitution
