-- The whole table of nodes under its changes. Whatever was added, moved and replaced, a node has
-- another one as parent exactly if that one holds it, and no node is held twice. Most changes are of
-- one kind: of what one node holds, one place changes.
import WikiHtml.Proofs.Tree.Sharing
import WikiHtml.Tree.Edit

namespace WikiHtml.Tree

/-! ## Going up -/

/-- Going up from the first node by the parents, one comes to the second, or it is the same. -/
def ComesUpTo (t : Tree) : NodeId → NodeId → Prop :=
  Relation.ReflTransGen fun x p => t.parent x = some p

/-- Going up from a node by the parents, one comes to an end. -/
def EndsUp (t : Tree) (x : NodeId) : Prop :=
  ∃ above, t.Chain x above none

section

variable {t t' : Tree} {p x : NodeId}

theorem comesUpTo_of_mem {above : List NodeId} {top : Option NodeId}
    (h : t.Chain p above top) (hx : x ∈ p :: above) : t.ComesUpTo p x := by
  induction above generalizing p with
  | nil =>
    obtain rfl := List.mem_singleton.mp hx
    exact .refl
  | cons a as ih =>
    rcases List.mem_cons.mp hx with rfl | hx
    · exact .refl
    · exact .head h.1 (ih h.2 hx)

theorem endsUp_of_parent (h : ∀ q, t.parent x = some q → t.EndsUp q) : t.EndsUp x := by
  rcases hp : t.parent x with _ | q
  · exact ⟨[], hp⟩
  · obtain ⟨above, hchain⟩ := h q hp
    exact ⟨q :: above, hp, hchain⟩

/-- Going up still comes to an end where each node on the way keeps its parent, or has one now from
which it comes to an end. -/
theorem EndsUp.later (h : t.EndsUp x)
    (hup : ∀ y, t.ComesUpTo x y → t'.parent y = t.parent y ∨
      ∀ q, t'.parent y = some q → t'.EndsUp q) : t'.EndsUp x := by
  obtain ⟨above, hchain⟩ := h
  induction above generalizing x with
  | nil =>
    refine endsUp_of_parent fun q hq => ?_
    rcases hup x .refl with hsame | hnew
    · rw [hsame, show t.parent x = none from hchain] at hq
      cases hq
    · exact hnew q hq
  | cons a as ih =>
    refine endsUp_of_parent fun q hq => ?_
    rcases hup x .refl with hsame | hnew
    · rw [hsame, hchain.1, Option.some.injEq] at hq
      subst hq
      exact ih (fun y hy => hup y (.head hchain.1 hy)) hchain.2
    · exact hnew q hq

/-- A node from which going up ends is not above itself. -/
theorem EndsUp.not_above_parent (h : t.EndsUp x) (hp : t.parent x = some p) :
    ¬ t.ComesUpTo p x := by
  intro hup
  obtain ⟨above, hchain⟩ := h
  induction above generalizing x p with
  | nil =>
    rw [show t.parent x = none from hchain] at hp
    cases hp
  | cons a as ih =>
    obtain rfl : a = p := Option.some.inj (hchain.1.symm.trans hp)
    rcases hup.cases_head with rfl | ⟨q, hq, hrest⟩
    · exact ih hp .refl hchain.2
    · exact ih hq (hrest.tail hp) hchain.2

end

/-! ## Parents and held nodes -/

/-- A node has another one as parent if and only if that one holds it. No node is held in two
places, going up from a node comes to an end, and all numbers that are stored are those of nodes. -/
structure Linked (t : Tree) : Prop where
  parent_iff : ∀ x p, t.parent x = some p ↔ x ∈ (t.element p).children
  place_unique : ∀ (x holder holder' : NodeId) (k k' : Nat),
    (t.element holder).children[k]? = some x → (t.element holder').children[k']? = some x →
    holder = holder' ∧ k = k'
  endsUp : ∀ x, t.EndsUp x
  inside : ∀ p, ∀ x ∈ (t.element p).children, x < t.size ∧ p < t.size
  top : ∀ x, t.root = some x → x < t.size

section

variable {t t' : Tree} {p x : NodeId}

theorem Linked.single (h : t.Linked) {q : NodeId} (hp : x ∈ (t.element p).children)
    (hq : x ∈ (t.element q).children) : p = q :=
  Option.some.inj (((h.parent_iff x p).mpr hp).symm.trans ((h.parent_iff x q).mpr hq))

theorem Linked.nodup (h : t.Linked) (p : NodeId) : (t.element p).children.Nodup := by
  refine List.nodup_iff_getElem?_ne_getElem?.mpr fun i j hij hj he => ?_
  have hj' := List.getElem?_eq_getElem hj
  exact Nat.ne_of_lt hij (h.place_unique _ _ _ _ _ (he.trans hj') hj').2

theorem Linked.not_held_iff (h : t.Linked) : ¬ t.Held x ↔ t.parent x = none := by
  rw [Option.eq_none_iff_forall_ne_some]
  simp only [Held, not_exists, ← h.parent_iff]

/-- Only what the nodes hold, their parents, and the node at the top count. -/
theorem Linked.congr (h : t.Linked) (hs : t'.size = t.size) (hroot : t'.root = t.root)
    (he : ∀ x, t'.element x = t.element x) (hp : ∀ x, t'.parent x = t.parent x) : t'.Linked where
  parent_iff x p := by rw [hp, he, h.parent_iff]
  place_unique x p q k k' hk hk' := h.place_unique x p q k k' (he p ▸ hk) (he q ▸ hk')
  endsUp x := (h.endsUp x).later fun y _ => Or.inl (hp y)
  inside p x hx := hs ▸ h.inside p x (he p ▸ hx)
  top x hx := hs ▸ h.top x (hroot ▸ hx)

end

/-! ## One node that holds others than before -/

/-- What one node holds changes. It gets no node that another one still holds, nor one that is above
it, and it is the parent of all that it holds then; what it holds no more has no parent. -/
structure Reheld (t t' : Tree) (p : NodeId) : Prop where
  size_le : t.size ≤ t'.size
  root_eq : t'.root = t.root
  holder : p < t'.size
  inside : ∀ x ∈ (t'.element p).children, x < t'.size
  nodup : ∀ q, (t'.element q).children.Nodup
  elsewhere : ∀ q, q ≠ p → ∀ x, x ∈ (t'.element q).children ↔
    x ∈ (t.element q).children ∧ x ∉ (t'.element p).children
  parent_eq : ∀ x, t'.parent x =
    if x ∈ (t'.element p).children then some p
    else if x ∈ (t.element p).children then none else t.parent x
  below : ∀ x ∈ (t'.element p).children, x ∈ (t.element p).children ∨ ¬ t.ComesUpTo p x

section

variable {t t' : Tree} {p : NodeId}

theorem Reheld.parent_iff (hr : t.Reheld t' p) (h : t.Linked) (x q : NodeId) :
    t'.parent x = some q ↔ x ∈ (t'.element q).children := by
  rw [hr.parent_eq x]
  rcases eq_or_ne q p with rfl | hq
  · by_cases hx : x ∈ (t'.element q).children
    · simp [hx]
    · simp only [hx, if_false, iff_false]
      split
      · simp
      · rename_i hold
        exact fun hpar => hold ((h.parent_iff x q).mp hpar)
  · rw [hr.elsewhere q hq]
    by_cases hx : x ∈ (t'.element p).children
    · simp only [hx, if_true, not_true, and_false, iff_false, Option.some.injEq]
      exact Ne.symm hq
    · simp only [hx, if_false, not_false_eq_true, and_true]
      split
      · rename_i hold
        simp only [reduceCtorEq, false_iff]
        exact fun hx' => hq (h.single hx' hold)
      · exact h.parent_iff x q

/-- A node keeps its parent or loses it, unless it is new below the holder. -/
theorem Reheld.parent_or_none (hr : t.Reheld t' p) (h : t.Linked) {y : NodeId}
    (hy : y ∈ (t'.element p).children → y ∈ (t.element p).children) :
    t'.parent y = t.parent y ∨ t'.parent y = none := by
  rw [hr.parent_eq y]
  split
  · rename_i hnew
    exact Or.inl ((h.parent_iff y p).mpr (hy hnew)).symm
  · split
    · exact Or.inr rfl
    · exact Or.inl rfl

theorem Reheld.endsUp (hr : t.Reheld t' p) (h : t.Linked) (x : NodeId) : t'.EndsUp x := by
  have hnone : ∀ y, t'.parent y = none → ∀ q, t'.parent y = some q → t'.EndsUp q := by
    intro y hy q hq
    rw [hy] at hq
    cases hq
  -- First from the holder: no node above it is new below it.
  have hholder : t'.EndsUp p := (h.endsUp p).later fun y hy =>
    (hr.parent_or_none h fun hnew =>
      (hr.below y hnew).resolve_right (not_not_intro hy)).imp_right (hnone y)
  refine (h.endsUp x).later fun y _ => ?_
  by_cases hnew : y ∈ (t'.element p).children
  · refine Or.inr fun q hq => ?_
    rw [hr.parent_eq y, if_pos hnew, Option.some.injEq] at hq
    exact hq ▸ hholder
  · exact (hr.parent_or_none h fun hy => absurd hy hnew).imp_right (hnone y)

theorem Linked.rehold (h : t.Linked) (hr : t.Reheld t' p) : t'.Linked where
  parent_iff := hr.parent_iff h
  place_unique x q q' k k' hk hk' := by
    obtain rfl : q = q' := Option.some.inj
      (((hr.parent_iff h x q).mpr (List.mem_of_getElem? hk)).symm.trans
        ((hr.parent_iff h x q').mpr (List.mem_of_getElem? hk')))
    obtain ⟨hlt, _⟩ := List.getElem?_eq_some_iff.mp hk
    exact ⟨rfl, List.getElem?_inj hlt (hr.nodup q) |>.mp (hk.trans hk'.symm)⟩
  endsUp := hr.endsUp h
  inside q x hx := by
    rcases eq_or_ne q p with rfl | hq
    · exact ⟨hr.inside x hx, hr.holder⟩
    · obtain ⟨hlt, hlt'⟩ := h.inside q x ((hr.elsewhere q hq x).mp hx).1
      exact ⟨Nat.lt_of_lt_of_le hlt hr.size_le, Nat.lt_of_lt_of_le hlt' hr.size_le⟩
  top x hx := Nat.lt_of_lt_of_le (h.top x (hr.root_eq ▸ hx)) hr.size_le

end

/-! ## One place that is changed -/

/-- What may come into a place of a holder that held `old` there: the same node, or one that no
place holds, and that is neither the holder nor above it. -/
structure MayHold (t : Tree) (holder : NodeId) (old : Option NodeId) (new : NodeId) : Prop where
  inside : new < t.size
  free : old = some new ∨ ¬ t.Held new
  below : ¬ t.ComesUpTo holder new

/-- Of what a node holds, one place changed: `old` was there, and now `new` is. -/
structure Exchanged (t t' : Tree) (p : NodeId) (old new : Option NodeId) : Prop where
  size_eq : t'.size = t.size
  root_eq : t'.root = t.root
  elsewhere : ∀ x, x ≠ p → t'.element x = t.element x
  place : ∃ front back, (t.element p).children = front ++ old.toList ++ back ∧
    (t'.element p).children = front ++ new.toList ++ back
  parent_eq : ∀ x, t'.parent x =
    if new = some x then some p else if old = some x then none else t.parent x

section

variable {t t' : Tree} {p : NodeId} {old new : Option NodeId}

/-- What is held before and after: what stays in all other places, and what is in the place. -/
theorem Exchanged.kept (he : t.Exchanged t' p old new) (h : t.Linked)
    (hnew : ∀ c ∈ new, t.MayHold p old c) :
    ∃ kept : List NodeId,
      (∀ x, x ∈ (t.element p).children ↔ x ∈ kept ∨ old = some x) ∧
      (∀ x, x ∈ (t'.element p).children ↔ x ∈ kept ∨ new = some x) ∧
      (∀ x, old = some x → x ∉ kept) ∧ (t'.element p).children.Nodup := by
  obtain ⟨front, back, hbefore, hafter⟩ := he.place
  have hnodup : (old.toList ++ (front ++ back)).Nodup := by
    have hn := h.nodup p
    rw [hbefore, List.append_assoc] at hn
    exact (List.perm_append_comm_assoc ..).nodup_iff.mp hn
  have hsplit : ∀ x, old = some x → x ∉ front ++ back := fun x hx hm =>
    (List.nodup_append'.mp hnodup).2.2 (by simp [hx]) hm
  refine ⟨front ++ back, ?_, ?_, hsplit, ?_⟩
  · intro x
    rw [hbefore]
    simp only [List.mem_append, Option.mem_toList]
    tauto
  · intro x
    rw [hafter]
    simp only [List.mem_append, Option.mem_toList]
    tauto
  · rw [hafter, List.append_assoc, (List.perm_append_comm_assoc ..).nodup_iff,
      List.nodup_append']
    refine ⟨by cases new <;> simp, (List.nodup_append'.mp hnodup).2.1, fun x hx hm => ?_⟩
    rw [Option.mem_toList] at hx
    rcases (hnew x hx).free with hsame | hfree
    · exact hsplit x hsame hm
    · refine hfree ⟨p, ?_⟩
      rw [hbefore]
      simp only [List.mem_append] at hm ⊢
      tauto

/-- A place that is changed is one way in which a node comes to hold others. -/
theorem Exchanged.reheld (he : t.Exchanged t' p old new) (h : t.Linked) (hp : p < t.size)
    (hnew : ∀ c ∈ new, t.MayHold p old c) : t.Reheld t' p := by
  obtain ⟨kept, hbefore, hafter, hold, hnodup⟩ := he.kept h hnew
  refine ⟨Nat.le_of_eq he.size_eq.symm, he.root_eq, he.size_eq ▸ hp, ?_, ?_, ?_, ?_, ?_⟩
  · intro x hx
    rw [he.size_eq]
    rcases (hafter x).mp hx with hm | hx
    · exact (h.inside p x ((hbefore x).mpr (Or.inl hm))).1
    · exact (hnew x hx).inside
  · intro q
    rcases eq_or_ne q p with rfl | hq
    · exact hnodup
    · rw [he.elsewhere q hq]
      exact h.nodup q
  · intro q hq x
    rw [he.elsewhere q hq, iff_self_and]
    intro hx hx'
    rcases (hafter x).mp hx' with hm | hx'
    · exact hq (h.single hx ((hbefore x).mpr (Or.inl hm)))
    · rcases (hnew x hx').free with hsame | hfree
      · exact hq (h.single hx ((hbefore x).mpr (Or.inr hsame)))
      · exact hfree ⟨q, hx⟩
  · intro x
    rw [he.parent_eq x]
    by_cases hx : new = some x
    · rw [if_pos hx, if_pos ((hafter x).mpr (Or.inr hx))]
    by_cases hx' : old = some x
    · have hgone : x ∉ (t'.element p).children := fun hm =>
        ((hafter x).mp hm).elim (hold x hx') hx
      rw [if_neg hx, if_pos hx', if_neg hgone, if_pos ((hbefore x).mpr (Or.inr hx'))]
    · rw [if_neg hx, if_neg hx']
      by_cases hm : x ∈ kept
      · rw [if_pos ((hafter x).mpr (Or.inl hm))]
        exact (h.parent_iff x p).mpr ((hbefore x).mpr (Or.inl hm))
      · rw [if_neg fun h' => ((hafter x).mp h').elim hm hx,
          if_neg fun h' => ((hbefore x).mp h').elim hm hx']
  · intro x hx
    rcases (hafter x).mp hx with hm | hx
    · exact Or.inl ((hbefore x).mpr (Or.inl hm))
    · exact Or.inr (hnew x hx).below

end

/-! ## Changes of one place -/

section

variable {t : Tree} {p : NodeId}

/-- A holder gets a new element, and what it holds in one place is exchanged. -/
theorem exchanged_setElement {e : Element NodeId} {old new : Option NodeId}
    {front back : List NodeId} (hp : p < t.size)
    (hbefore : (t.element p).children = front ++ old.toList ++ back)
    (hafter : e.children = front ++ new.toList ++ back) (ho : ∀ c ∈ old, c < t.size)
    (hn : ∀ c ∈ new, c < t.size) :
    t.Exchanged ((t.setElement p e).exchange p old new) p old new where
  size_eq := by simp
  root_eq := by simp [setElement]
  elsewhere x hx := by rw [element_exchange, element_setElement _ _ _ hp, if_neg hx]
  place := ⟨front, back, hbefore, by
    rw [element_exchange, element_setElement _ _ _ hp, if_pos rfl, hafter]⟩
  parent_eq x := by
    rw [parent_exchange_of _ _ (by simpa using ho) (by simpa using hn), parent_setElement]

/-- A holder gets a new element, and another node comes into one of its places. -/
theorem Linked.setElement_exchange (h : t.Linked) {e : Element NodeId} (old new : Option NodeId)
    (front back : List NodeId) (hp : p < t.size)
    (hbefore : (t.element p).children = front ++ old.toList ++ back)
    (hafter : e.children = front ++ new.toList ++ back)
    (hnew : ∀ c ∈ new, t.MayHold p old c) :
    ((t.setElement p e).exchange p old new).Linked := by
  have ho : ∀ c ∈ old, c < t.size := fun c hc => (h.inside p c (by
    rw [hbefore]
    simp [Option.mem_def.mp hc])).1
  have he := exchanged_setElement hp hbefore hafter ho fun c hc => (hnew c hc).inside
  exact h.rehold (he.reheld h hp hnew)

theorem Linked.setChild (h : t.Linked) {w : Wrapper} {old new : Option NodeId} (hp : p < t.size)
    (he : t.element p = .wrap w old) (hnew : ∀ c ∈ new, t.MayHold p old c) :
    (t.setChild p new).Linked := by
  rw [Tree.setChild, he]
  exact h.setElement_exchange old new [] [] hp (by simp [he, Element.children])
    (by simp [Element.children]) hnew

theorem Linked.listSet (h : t.Linked) {members : List NodeId} {index old new : NodeId}
    (hp : p < t.size) (he : t.element p = .list members) (hold : members[index]? = some old)
    (hnew : t.MayHold p (some old) new) : (t.listSet p index new).Linked := by
  obtain ⟨hlt, hget⟩ := List.getElem?_eq_some_iff.mp hold
  rw [Tree.listSet, he]
  dsimp only
  rw [hold]
  refine h.setElement_exchange (some old) (some new) (members.take index)
    (members.drop (index + 1)) hp ?_ ?_ ?_
  · rw [he, Element.children, Option.toList_some, List.append_assoc, List.singleton_append, ← hget,
      List.getElem_cons_drop, List.take_append_drop]
  · rw [Element.children, Option.toList_some, List.append_assoc, List.singleton_append,
      List.set_eq_take_append_cons_drop, if_pos hlt]
  · intro c hc
    obtain rfl := Option.some.inj hc
    exact hnew

theorem Linked.listRemove (h : t.Linked) {members : List NodeId} {index : Nat} (hp : p < t.size)
    (he : t.element p = .list members) (hlt : index < members.length) :
    (t.listRemove p index).2.Linked := by
  rw [Tree.listRemove, he]
  dsimp only
  rw [List.getElem?_eq_getElem hlt]
  refine h.setElement_exchange (some members[index]) none (members.take index)
    (members.drop (index + 1)) hp ?_ ?_ (by simp)
  · rw [he, Element.children, Option.toList_some, List.append_assoc, List.singleton_append,
      List.getElem_cons_drop, List.take_append_drop]
  · rw [Element.children, Option.toList_none, List.append_nil, List.eraseIdx_eq_take_drop_succ]

theorem Linked.listPush (h : t.Linked) {members : List NodeId} {new : NodeId} (hp : p < t.size)
    (he : t.element p = .list members) (hnew : t.MayHold p none new) :
    (t.listPush p new).Linked := by
  rw [Tree.listPush, he]
  refine h.setElement_exchange none (some new) members [] hp ?_ ?_ ?_
  · simp [he, Element.children]
  · simp [Element.children]
  · intro c hc
    obtain rfl := Option.some.inj hc
    exact hnew

theorem Linked.setCellContent (h : t.Linked) {params : Option String} {rows : List (Row NodeId)}
    {row cell : Nat} {new : Option NodeId} (hp : p < t.size) (he : t.element p = .table params rows)
    (hcell : hasCell rows row cell = true)
    (hnew : ∀ c ∈ new, t.MayHold p (cellContent rows row cell) c) :
    (t.setCellContent p row cell new).Linked := by
  rw [Tree.setCellContent, he]
  obtain ⟨front, back, hcontents⟩ := Substitution.contents_setContent hcell
  refine h.setElement_exchange (cellContent rows row cell) new front back hp ?_ (hcontents.2 new) hnew
  rw [he]
  exact hcontents.1

end

/-! ## Moving all members of a list -/

section

variable {t : Tree} {p : NodeId}

/-- What becomes of a list and of the nodes that are pushed to it one after another. -/
theorem foldl_listPush {members : List NodeId} (moved : List NodeId) (hp : p < t.size)
    (he : t.element p = .list members) (hm : ∀ c ∈ moved, c < t.size) :
    let t' := moved.foldl (fun t node => t.listPush p node) t
    t'.size = t.size ∧ t'.root = t.root ∧
      (∀ x, t'.element x = if x = p then .list (members ++ moved) else t.element x) ∧
      ∀ x, t'.parent x = if x ∈ moved then some p else t.parent x := by
  induction moved generalizing t members with
  | nil =>
    refine ⟨rfl, rfl, fun x => ?_, by simp⟩
    split
    · rename_i hx
      rw [hx, List.append_nil]
      exact he
    · rfl
  | cons c rest ih =>
    have hc : c < t.size := hm c (by simp)
    have hpush : t.listPush p c =
        (t.setElement p (.list (members ++ [c]))).setParent c (some p) := by rw [listPush, he]
    have hsize : (t.listPush p c).size = t.size := by simp [hpush]
    have hself : (t.listPush p c).element p = .list (members ++ [c]) := by
      rw [hpush, element_setParent, element_setElement _ _ _ hp, if_pos rfl]
    obtain ⟨hs, hr, helement, hparent⟩ := ih (hsize ▸ hp) hself fun x hx =>
      hsize ▸ hm x (List.mem_cons_of_mem c hx)
    refine ⟨hs.trans hsize, hr.trans (by rw [hpush]; rfl), fun x => ?_, fun x => ?_⟩
    · rw [List.foldl_cons, helement x, hpush, element_setParent, element_setElement _ _ _ hp]
      by_cases hx : x = p <;> simp [hx]
    · rw [List.foldl_cons, hparent x, hpush, parent_setParent _ _ _ (by simpa using hc),
        parent_setElement]
      by_cases hx : x ∈ rest
      · simp [hx]
      · by_cases hxc : x = c <;> simp [hx, hxc]

/-- A list gets all members of another one. -/
theorem Linked.listAppend_other (h : t.Linked) {other : NodeId} {members moved : List NodeId}
    (hp : p < t.size) (hother : other < t.size) (hne : p ≠ other) (he : t.element p = .list members)
    (ho : t.element other = .list moved) (habove : ∀ c ∈ moved, ¬ t.ComesUpTo p c) :
    (t.listAppend p other).Linked := by
  have hmem : ∀ c, c ∈ moved ↔ c ∈ (t.element other).children := fun c => by rw [ho]; rfl
  have hm : ∀ c ∈ moved, c < t.size := fun c hc => (h.inside other c ((hmem c).mp hc)).1
  have happend : t.listAppend p other =
      moved.foldl (fun t node => t.listPush p node) (t.setElement other (.list [])) := by
    rw [Tree.listAppend, ho]
  have hlist : (t.setElement other (.list [])).element p = .list members := by
    rw [element_setElement _ _ _ hother, if_neg hne, he]
  obtain ⟨hs, hr, helement, hparent⟩ :=
    foldl_listPush moved (by simpa using hp) hlist (by simpa using hm)
  rw [← happend] at hs hr helement hparent
  simp only [size_setElement] at hs
  simp only [element_setElement _ _ _ hother] at helement
  simp only [parent_setElement] at hparent
  have hself : ((t.listAppend p other).element p).children = (t.element p).children ++ moved := by
    rw [helement p, if_pos rfl, he]
    rfl
  have hemptied : ((t.listAppend p other).element other).children = [] := by
    rw [helement other, if_neg (Ne.symm hne), if_pos rfl]
    rfl
  have hothers : ∀ q, q ≠ p → q ≠ other → (t.listAppend p other).element q = t.element q := by
    intro q hq hq'
    rw [helement q, if_neg hq, if_neg hq']
  refine h.rehold (p := p) ⟨Nat.le_of_eq hs.symm, hr, by rw [hs]; exact hp, ?_, ?_, ?_, ?_, ?_⟩
  · intro x hx
    rw [hself, List.mem_append] at hx
    rw [hs]
    exact hx.elim (fun hx => (h.inside p x hx).1) (hm x)
  · intro q
    rcases eq_or_ne q p with rfl | hq
    · rw [hself, List.nodup_append']
      have hmoved := h.nodup other
      rw [ho] at hmoved
      exact ⟨h.nodup q, hmoved, fun x hx hx' => hne (h.single hx ((hmem x).mp hx'))⟩
    · rcases eq_or_ne q other with rfl | hq'
      · rw [hemptied]
        exact List.nodup_nil
      · rw [hothers q hq hq']
        exact h.nodup q
  · intro q hq x
    rw [hself, List.mem_append, hmem]
    rcases eq_or_ne q other with rfl | hq'
    · simp only [hemptied, List.not_mem_nil, false_iff]
      tauto
    · rw [hothers q hq hq', iff_self_and]
      exact fun hx hx' => hx'.elim (fun hx' => hq (h.single hx hx')) fun hx' =>
        hq' (h.single hx hx')
  · intro x
    rw [hparent x]
    simp only [hself, List.mem_append]
    by_cases hx : x ∈ moved
    · simp [hx]
    · by_cases hx' : x ∈ (t.element p).children
      · simp [hx, hx', (h.parent_iff x p).mpr hx']
      · simp [hx, hx']
  · intro x hx
    rw [hself, List.mem_append] at hx
    exact hx.imp_right (habove x)

/-- A list whose members are moved to itself stays as it is. -/
theorem Linked.listAppend_self (h : t.Linked) {members : List NodeId} (hp : p < t.size)
    (he : t.element p = .list members) : (t.listAppend p p).Linked := by
  have hmem : ∀ c, c ∈ members ↔ c ∈ (t.element p).children := fun c => by rw [he]; rfl
  have hm : ∀ c ∈ members, c < t.size := fun c hc => (h.inside p c ((hmem c).mp hc)).1
  have happend : t.listAppend p p =
      members.foldl (fun t node => t.listPush p node) (t.setElement p (.list [])) := by
    rw [Tree.listAppend, he]
  have hlist : (t.setElement p (.list [])).element p = .list [] := by
    rw [element_setElement _ _ _ hp, if_pos rfl]
  obtain ⟨hs, hr, helement, hparent⟩ :=
    foldl_listPush members (by simpa using hp) hlist (by simpa using hm)
  rw [← happend] at hs hr helement hparent
  refine h.congr (by simpa using hs) hr (fun x => ?_) fun x => ?_
  · rw [helement x, element_setElement _ _ _ hp]
    split
    · rename_i hx
      rw [hx, he, List.nil_append]
    · rfl
  · rw [hparent x, parent_setElement]
    split
    · rename_i hx
      exact ((h.parent_iff x p).mpr ((hmem x).mp hx)).symm
    · rfl

end

/-! ## Nodes that are added -/

section

variable {t : Tree}

theorem Linked.add (h : t.Linked) {e : Element NodeId} (span : Option Span)
    (hin : ∀ c ∈ e.children, c < t.size ∧ ¬ t.Held c) (hn : e.children.Nodup) :
    (t.add e span).2.Linked := by
  have hlt : ∀ c ∈ e.children, c < t.size := fun c hc => (hin c hc).1
  have hself : ((t.add e span).2.element t.size).children = e.children := by
    rw [element_add, if_pos rfl]
  have hothers : ∀ q, q ≠ t.size → (t.add e span).2.element q = t.element q := fun q hq => by
    rw [element_add, if_neg hq]
  have hnone : (t.element t.size).children = [] := by
    rw [element_of_size_le (Nat.le_refl _)]
    rfl
  refine h.rehold (p := t.size) ⟨by simp, root_add .., by simp, ?_, ?_, ?_, ?_, ?_⟩
  · intro x hx
    rw [hself] at hx
    rw [size_add]
    exact Nat.lt_succ_of_lt (hlt x hx)
  · intro q
    rcases eq_or_ne q t.size with rfl | hq
    · rw [hself]
      exact hn
    · rw [hothers q hq]
      exact h.nodup q
  · intro q hq x
    rw [hothers q hq, hself, iff_self_and]
    exact fun hx hc => (hin x hc).2 ⟨q, hx⟩
  · intro x
    rw [hself, hnone, if_neg (List.not_mem_nil)]
    rcases Nat.lt_trichotomy x t.size with hx | rfl | hx
    · exact parent_add t span (fun c hc => Nat.le_of_lt (hlt c hc)) hx
    · rw [parent_add_self t span hlt, if_neg fun hm => Nat.lt_irrefl _ (hlt _ hm),
        parent_of_size_le (Nat.le_refl _)]
    · rw [if_neg fun hm => Nat.lt_asymm hx (hlt x hm), parent_of_size_le (Nat.le_of_lt hx),
        parent_of_size_le (by rw [size_add]; exact hx)]
  · intro x hx
    rw [hself] at hx
    refine Or.inr fun hup => ?_
    rcases hup.cases_head with rfl | ⟨q, hq, _⟩
    · exact Nat.lt_irrefl _ (hlt _ hx)
    · rw [parent_of_size_le (Nat.le_refl _)] at hq
      cases hq

theorem Linked.addMembers {ds : List Document}
    (ih : ∀ d ∈ ds, ∀ t : Tree, t.Linked → (t.addDocument d).2.Linked) (h : t.Linked) :
    (t.addMembers ds).2.Linked := by
  induction ds generalizing t with
  | nil => simpa [Tree.addMembers] using h
  | cons d rest ihrest =>
    simp only [Tree.addMembers]
    exact ihrest (fun a ha => ih a (List.mem_cons_of_mem d ha)) (ih d (by simp) t h)

/-- A document is added from the leaves up, and each holder holds new nodes only. -/
theorem Linked.addDocument (h : t.Linked) (d : Document) : (t.addDocument d).2.Linked := by
  induction d using Document.induct generalizing t with
  | node e span ih =>
    have hmembers := h.addMembers fun d hd t ht => ih d hd ht
    obtain ⟨os, hids, hplanted⟩ := addMembers_planted (fun d _ t => t.addDocument_planted d) t
    have hl := length_addMembers t e.children
    rw [addDocument_eq]
    refine hmembers.add span ?_ ?_ <;> rw [e.children_refill _ (Or.inr hl), ← hids]
    · intro c hc
      obtain ⟨o, ho, rfl⟩ := List.mem_map.mp hc
      exact ⟨(hplanted.stands o ho).spans.inside,
        hmembers.not_held_iff.mpr (hplanted.loose o ho)⟩
    · exact nodup_tops hplanted.nodup

theorem Linked.setRoot (h : t.Linked) {id : NodeId} (hin : id < t.size) (hfree : ¬ t.Held id) :
    (t.setRoot id).Linked := by
  have hsame : ∀ x, (t.setRoot id).parent x = t.parent x := fun x => by
    rw [parent_setRoot _ _ hin]
    split
    · rename_i hx
      rw [hx, h.not_held_iff.mp hfree]
    · rfl
  refine ⟨fun x p => ?_, fun x p q k k' hk hk' => ?_, fun x => ?_, fun p x hx => ?_, fun x hx => ?_⟩
  · rw [hsame, element_setRoot]
    exact h.parent_iff x p
  · rw [element_setRoot] at hk hk'
    exact h.place_unique x p q k k' hk hk'
  · exact (h.endsUp x).later fun y _ => Or.inl (hsame y)
  · rw [element_setRoot] at hx
    simpa using h.inside p x hx
  · obtain rfl : id = x := Option.some.inj hx
    simpa using hin

theorem empty_linked : Tree.empty.Linked where
  parent_iff x p := by
    rw [element_of_size_le (Nat.zero_le p)]
    simp [Element.children, Tree.parent, Tree.empty]
  place_unique x p q k k' hk _ := by
    rw [element_of_size_le (Nat.zero_le p)] at hk
    simp [Element.children] at hk
  endsUp x := ⟨[], by simp [Chain, Tree.parent, Tree.empty]⟩
  inside p x hx := by
    rw [element_of_size_le (Nat.zero_le p)] at hx
    simp [Element.children] at hx
  top x hx := by cases hx

end

end WikiHtml.Tree
