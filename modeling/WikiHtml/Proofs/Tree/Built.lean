-- Trees that were built from the empty one by changes. Each change needs what it puts into a place to
-- be loose, and not to stand above that place; then parents and held nodes agree all along, and the
-- part below each node is finite, so that it can be copied.
import WikiHtml.Proofs.Tree.Copies
import WikiHtml.Proofs.Tree.Linked

namespace WikiHtml.Tree

/-! ## The parts of a linked tree -/

section

variable {t : Tree}

theorem Linked.comesUpTo_of_reaches (h : t.Linked) {x y : NodeId} (hr : t.Reaches y x) :
    t.ComesUpTo x y := by
  induction hr with
  | refl => exact .refl
  | tail _ hstep ih => exact .head ((h.parent_iff _ _).mpr hstep) ih

/-- Of two nodes above a node, one is above the other. -/
theorem ComesUpTo.total {x y z : NodeId} (hy : t.ComesUpTo x y) (hz : t.ComesUpTo x z) :
    t.ComesUpTo y z ∨ t.ComesUpTo z y := by
  refine Relation.ReflTransGen.total_of_right_unique (fun a b c hb hc => ?_) hy hz
  exact Option.some.inj (hb.symm.trans hc)

/-- Nodes with the same parent are not above each other. -/
theorem Linked.eq_of_siblings (h : t.Linked) {p x y : NodeId} (hx : t.parent x = some p)
    (hy : t.parent y = some p) (hup : t.ComesUpTo x y) : x = y := by
  rcases hup.cases_head with rfl | ⟨q, hq, hrest⟩
  · rfl
  · obtain rfl : p = q := Option.some.inj (hx.symm.trans hq)
    exact absurd hrest ((h.endsUp y).not_above_parent hy)

theorem Linked.nodup_ids (h : t.Linked) {o : Outline} (hs : t.Spans o) : o.ids.Nodup := by
  induction hs with
  | @node id held inside holds rest ih =>
    have hparent : ∀ c ∈ held, t.parent c.id = some id := fun c hc => by
      rw [h.parent_iff, holds]
      exact List.mem_map_of_mem hc
    have hup : ∀ c ∈ held, ∀ x ∈ c.ids, t.ComesUpTo x c.id := fun c hc x hx =>
      h.comesUpTo_of_reaches ((rest c hc).reaches hx)
    rw [Outline.ids_node, List.nodup_cons, List.nodup_flatMap]
    refine ⟨fun hm => ?_, ih, ?_⟩
    · obtain ⟨c, hc, hx⟩ := List.mem_flatMap.mp hm
      exact (h.endsUp c.id).not_above_parent (hparent c hc) (hup c hc id hx)
    · have hne : held.Pairwise fun c d => c.id ≠ d.id :=
        List.pairwise_map.mp (holds ▸ h.nodup id)
      refine hne.imp_of_mem fun {c d} hc hd hcd x hx hx' => hcd ?_
      rcases (hup c hc x hx).total (hup d hd x hx') with hcd | hdc
      · exact h.eq_of_siblings (hparent c hc) (hparent d hd) hcd
      · exact (h.eq_of_siblings (hparent d hd) (hparent c hc) hdc).symm

theorem Linked.stands (h : t.Linked) {o : Outline} (hs : t.Spans o) : t.Stands [] o where
  spans := hs
  nodup := h.nodup_ids hs
  linked e he := by
    rw [if_neg List.not_mem_nil, h.parent_iff]
    exact (hs.edge_iff.mp he).2

theorem Linked.nodup_chain (h : t.Linked) {x : NodeId} {above : List NodeId}
    (hc : t.Chain x above none) : (x :: above).Nodup := by
  induction above generalizing x with
  | nil => simp
  | cons a as ih =>
    refine List.nodup_cons.mpr ⟨fun hm => ?_, ih hc.2⟩
    exact (h.endsUp x).not_above_parent hc.1 (comesUpTo_of_mem hc.2 hm)

theorem Linked.parent_lt (h : t.Linked) {x p : NodeId} (hp : t.parent x = some p) : p < t.size :=
  (h.inside p x ((h.parent_iff x p).mp hp)).2

theorem Linked.chain_lt (h : t.Linked) {x : NodeId} {above : List NodeId}
    (hc : t.Chain x above none) : ∀ y ∈ above, y < t.size := by
  induction above generalizing x with
  | nil => simp
  | cons a as ih =>
    intro y hy
    rcases List.mem_cons.mp hy with rfl | hy
    · exact h.parent_lt hc.1
    · exact ih hc.2 y hy

/-- A way up has no more nodes than the table. -/
theorem Linked.length_chain (h : t.Linked) {x : NodeId} {above : List NodeId} (hx : x < t.size)
    (hc : t.Chain x above none) : above.length < t.size := by
  have hsub : ∀ y ∈ x :: above, y ∈ List.range t.size := by
    intro y hy
    rw [List.mem_range]
    rcases List.mem_cons.mp hy with rfl | hy
    · exact hx
    · exact h.chain_lt hc y hy
  have hle := ((h.nodup_chain hc).subperm hsub).length_le
  rw [List.length_cons, List.length_range] at hle
  exact hle

/-- Below each node the tree is finite: the way up from what it holds is longer, and no way up is
longer than there are nodes. -/
theorem Linked.spans (h : t.Linked) (n : Nat) {x : NodeId} {above : List NodeId} (hx : x < t.size)
    (hc : t.Chain x above none) (hn : above.length + n = t.size) :
    ∃ o : Outline, o.id = x ∧ t.Spans o := by
  induction n generalizing x above with
  | zero => exact absurd (h.length_chain hx hc) (by omega)
  | succ n ih =>
    have hheld : ∀ c ∈ (t.element x).children, ∃ o : Outline, o.id = c ∧ t.Spans o := by
      intro c hm
      have hup : t.Chain c (x :: above) none := ⟨(h.parent_iff c x).mpr hm, hc⟩
      exact ih (h.inside x c hm).1 hup (by rw [List.length_cons]; omega)
    have : Nonempty Outline := ⟨.node x []⟩
    choose! outline hid hspans using hheld
    refine ⟨.node x ((t.element x).children.map outline), rfl, .node hx ?_ ?_⟩
    · rw [List.map_map]
      exact (List.map_id _).symm.trans (List.map_congr_left fun c hm => (hid c hm).symm)
    · intro o ho
      obtain ⟨c, hm, rfl⟩ := List.mem_map.mp ho
      exact hspans c hm

theorem Linked.wellFormed (h : t.Linked) {x : NodeId} (hx : x < t.size) : t.WellFormed x := by
  obtain ⟨above, hc⟩ := h.endsUp x
  have hlt := h.length_chain hx hc
  obtain ⟨o, hid, hs⟩ := h.spans (t.size - above.length) hx hc (by omega)
  exact ⟨o, hid, h.stands hs⟩

end

/-! ## Changes -/

/-- Whether a change may be made: the nodes, members and cells that it names are there and of the
right kind, and what it puts into places may be held there. -/
def Edit.Allowed (t : Tree) : Edit → Prop
  | .add e _ => (∀ c ∈ e.children, c < t.size ∧ ¬ t.Held c) ∧ e.children.Nodup
  | .addDocument _ => True
  | .deepClone id => id < t.size
  | .setRoot id => id < t.size ∧ ¬ t.Held id
  | .setChild id child =>
    id < t.size ∧ ∃ w old, t.element id = .wrap w old ∧ ∀ c ∈ child, t.MayHold id old c
  | .listSet list index node =>
    list < t.size ∧ ∃ members old, t.element list = .list members ∧
      members[index]? = some old ∧ t.MayHold list (some old) node
  | .listRemove list index =>
    list < t.size ∧ ∃ members, t.element list = .list members ∧ index < members.length
  | .listPush list node =>
    list < t.size ∧ ∃ members, t.element list = .list members ∧ t.MayHold list none node
  | .listAppend list other =>
    list < t.size ∧ other < t.size ∧ ∃ members moved, t.element list = .list members ∧
      t.element other = .list moved ∧ ∀ c ∈ moved, ¬ t.ComesUpTo list c
  | .setCellContent table row cell content =>
    table < t.size ∧ ∃ params rows, t.element table = .table params rows ∧
      hasCell rows row cell = true ∧
      ∀ c ∈ content, t.MayHold table (cellContent rows row cell) c

/-- The trees that come from the empty one by allowed changes, and by copies from each other. -/
inductive Built : Tree → Prop
  | empty : Built .empty
  | edit {t t' : Tree} {e : Edit} {reply : Reply} (built : Built t) (allowed : e.Allowed t)
      (made : t.edit? e = some (reply, t')) : Built t'
  | copy {t other : Tree} {id : NodeId} (built : Built t) (source : Built other)
      (inside : id < other.size) : Built (t.copyFrom other id).2

section

variable {t : Tree} {e : Edit}

theorem contains_iff {id : NodeId} : t.contains id = true ↔ id < t.size := by
  simp [contains]

theorem containsAll_of_mayHold {p : NodeId} {old new : Option NodeId}
    (h : ∀ c ∈ new, t.MayHold p old c) : t.containsAll new.toList = true := by
  rw [containsAll, List.all_eq_true]
  intro c hc
  exact contains_iff.mpr (h c (Option.mem_toList.mp hc)).inside

/-- A change that is allowed can be made. -/
theorem Edit.Allowed.inRange (h : e.Allowed t) : e.inRange t = true := by
  cases e with
  | add element span => simpa [Edit.inRange] using fun c hc => Nat.le_of_lt (h.1 c hc).1
  | addDocument document => rfl
  | deepClone id => exact contains_iff.mpr h
  | setRoot id => exact contains_iff.mpr h.1
  | setChild id child =>
    obtain ⟨hid, w, old, he, hnew⟩ := h
    simp [Edit.inRange, contains_iff.mpr hid, containsAll_of_mayHold hnew]
  | listSet list index node =>
    obtain ⟨hlist, members, old, he, hold, hnew⟩ := h
    obtain ⟨hlt, _⟩ := List.getElem?_eq_some_iff.mp hold
    simp [Edit.inRange, contains_iff.mpr hlist, contains_iff.mpr hnew.inside, Tree.members, he,
      Element.members, hlt]
  | listRemove list index =>
    obtain ⟨hlist, members, he, hlt⟩ := h
    simp [Edit.inRange, contains_iff.mpr hlist, Tree.members, he, Element.members, hlt]
  | listPush list node =>
    obtain ⟨hlist, members, he, hnew⟩ := h
    simp [Edit.inRange, contains_iff.mpr hlist, contains_iff.mpr hnew.inside]
  | listAppend list other =>
    obtain ⟨hlist, hother, _⟩ := h
    simp [Edit.inRange, contains_iff.mpr hlist, contains_iff.mpr hother]
  | setCellContent table row cell content =>
    obtain ⟨htable, params, rows, he, hcell, hnew⟩ := h
    simp [Edit.inRange, contains_iff.mpr htable, he, hcell, containsAll_of_mayHold hnew]

/-- What a node of a linked tree shows is found, so it can be copied. -/
theorem Linked.document?_isSome (h : t.Linked) {id : NodeId} (hid : id < t.size) :
    ∃ d, t.document? id = some d := by
  obtain ⟨o, rfl, hs⟩ := h.wellFormed hid
  exact ⟨_, document?_eq_along hs.spans hs.nodup⟩

theorem Linked.deepClone (h : t.Linked) {id : NodeId} (hid : id < t.size) :
    (t.deepClone id).2.Linked := by
  obtain ⟨o, rfl, hs⟩ := h.wellFormed hid
  rw [deepClone_eq hs.spans hs.nodup]
  exact h.addDocument _

theorem Linked.copyFrom {other : Tree} (h : t.Linked) (ho : other.Linked) {id : NodeId}
    (hid : id < other.size) : (t.copyFrom other id).2.Linked := by
  obtain ⟨o, rfl, hs⟩ := ho.wellFormed hid
  rw [copyFrom_eq hs.spans hs.nodup]
  exact h.addDocument _

/-- An allowed change keeps a tree linked. -/
theorem Linked.run (h : t.Linked) (ha : e.Allowed t) : (e.run t).2.Linked := by
  cases e with
  | add element span => exact h.add span ha.1 ha.2
  | addDocument document => exact h.addDocument document
  | deepClone id => exact h.deepClone ha
  | setRoot id => exact h.setRoot ha.1 ha.2
  | setChild id child =>
    obtain ⟨hid, w, old, he, hnew⟩ := ha
    exact h.setChild hid he hnew
  | listSet list index node =>
    obtain ⟨hlist, members, old, he, hold, hnew⟩ := ha
    exact h.listSet hlist he hold hnew
  | listRemove list index =>
    obtain ⟨hlist, members, he, hlt⟩ := ha
    exact h.listRemove hlist he hlt
  | listPush list node =>
    obtain ⟨hlist, members, he, hnew⟩ := ha
    exact h.listPush hlist he hnew
  | listAppend list other =>
    obtain ⟨hlist, hother, members, moved, he, ho, habove⟩ := ha
    rcases eq_or_ne list other with rfl | hne
    · exact h.listAppend_self hlist he
    · exact h.listAppend_other hlist hother hne he ho habove
  | setCellContent table row cell content =>
    obtain ⟨htable, params, rows, he, hcell, hnew⟩ := ha
    exact h.setCellContent htable he hcell hnew

theorem Edit.Allowed.edit? (h : e.Allowed t) : t.edit? e = some (e.run t) := by
  rw [Tree.edit?, if_pos h.inRange]

theorem Built.linked (h : Built t) : t.Linked := by
  induction h with
  | empty => exact empty_linked
  | @edit t t' e reply built allowed made ih =>
    rw [allowed.edit?, Option.some.injEq] at made
    have hrun : (e.run t).2 = t' := congrArg Prod.snd made
    exact hrun ▸ ih.run allowed
  | copy built source inside ih ihs => exact ih.copyFrom ihs inside

/-- Whatever was added to the empty tree, moved in it and replaced there, parents and held nodes agree
for the whole table. Every allowed change can then be made, and what is below each node is finite, so
that each of them can be copied. -/
theorem parents_and_held_nodes_agree_in_trees_that_were_built (h : Built t) :
    t.Linked ∧ (∀ e : Edit, e.Allowed t → ∃ reply t', t.edit? e = some (reply, t') ∧ t'.Linked) ∧
      ∀ id < t.size, t.WellFormed id ∧ ∃ d, t.document? id = some d :=
  ⟨h.linked, fun _ ha => ⟨_, _, ha.edit?, h.linked.run ha⟩, fun _ hid =>
    ⟨h.linked.wellFormed hid, h.linked.document?_isSome hid⟩⟩

end

/-- A text that was moved from one list, node 1, to another one. -/
def movedText : Tree :=
  ⟨#[⟨.leaf (.text "x"), none, some 2⟩, ⟨.list [], none, none⟩, ⟨.list [0], none, none⟩], none⟩

theorem built_movedText : Built movedText := by
  have htext : Built (empty.add (.leaf (.text "x")) none).2 :=
    .edit (e := .add (.leaf (.text "x")) none) .empty ⟨by simp [Element.children], List.nodup_nil⟩
      rfl
  have hfirst : Built ((empty.add (.leaf (.text "x")) none).2.add (.list [0]) none).2 := by
    refine .edit (e := .add (.list [0]) none) htext ⟨fun c hc => ?_, by simp [Element.children]⟩ rfl
    obtain rfl := List.mem_singleton.mp hc
    exact ⟨by decide, htext.linked.not_held_iff.mpr rfl⟩
  have hlists : Built (((empty.add (.leaf (.text "x")) none).2.add (.list [0]) none).2.add
      (.list []) none).2 :=
    .edit (e := .add (.list []) none) hfirst ⟨by simp [Element.children], List.nodup_nil⟩ rfl
  refine .edit (e := .listAppend 2 1) hlists
    ⟨by decide, by decide, [], [0], rfl, rfl, fun c hc hup => ?_⟩ rfl
  obtain rfl := List.mem_singleton.mp hc
  rcases hup.cases_head with hsame | ⟨q, hq, _⟩
  · cases hsame
  · cases hq

theorem a_moved_text_has_its_new_list_as_parent :
    Built movedText ∧ (movedText.Linked ∧
      (∀ e : Edit, e.Allowed movedText →
        ∃ reply t', movedText.edit? e = some (reply, t') ∧ t'.Linked) ∧
      ∀ id < movedText.size, movedText.WellFormed id ∧ ∃ d, movedText.document? id = some d) ∧
      movedText.parent 0 = some 2 :=
  ⟨built_movedText, parents_and_held_nodes_agree_in_trees_that_were_built built_movedText, rfl⟩

end WikiHtml.Tree
