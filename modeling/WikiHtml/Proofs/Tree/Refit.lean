-- Putting a node into the place of a held one. Lists, table cells and the elements that may hold one
-- do this in the same way: the holder keeps its shape, the new node gets it as parent, and the one
-- that was there loses its parent.
import WikiHtml.Proofs.Tree.Cells
import WikiHtml.Proofs.Tree.Outline

namespace WikiHtml.Tree

/-- Puts a node into the place of the held one with a number. -/
def refit (t : Tree) (holder : NodeId) (k : Nat) (new : NodeId) : Tree :=
  let e := t.element holder
  (t.setElement holder (e.refill (e.children.set k new))).exchange holder e.children[k]? (some new)

/-- Takes the member with a number out of a list. -/
def takeOut (t : Tree) (list : NodeId) (k : Nat) : Tree :=
  (t.listRemove list k).2

/-! ## Every holder does the same -/

theorem listSet_eq_refit {t : Tree} {list : NodeId} (h : (t.element list).isList = true) (k : Nat)
    (new : NodeId) : t.listSet list k new = t.refit list k new := by
  unfold listSet refit
  rcases he : t.element list with members | _ | _ | _
  · rfl
  all_goals rw [he] at h; cases h

theorem setChild_eq_refit {t : Tree} {id child : NodeId} {w : Wrapper}
    (h : t.element id = .wrap w (some child)) (new : NodeId) :
    t.setChild id (some new) = t.refit id 0 new := by
  unfold setChild refit
  rw [h]
  rfl

theorem setCellContent_eq_refit {t : Tree} {table k : Nat} {params : Option String}
    {rows : List (Row NodeId)} {values : List NodeId} {place : Substitution.Place}
    (h : t.element table = .table params (Element.refillRows rows values))
    (hk : (Substitution.places rows)[k]? = some place)
    (hl : values.length = (Element.contents rows).length) (new : NodeId) :
    t.setCellContent table place.1 place.2.1 (some new) = t.refit table k new := by
  obtain ⟨hset, hget⟩ := Substitution.setContent_place new hk hl
  have hc : Element.contents (Element.refillRows rows values) = values :=
    Element.contents_refillRows rows values hl
  unfold setCellContent refit
  simp only [h, Element.children, Element.refill, hc, hset, hget,
    Element.refillRows_refillRows rows values _ hl]

/-! ## What becomes of the nodes -/

section

variable {t : Tree} {holder old : NodeId} {k : Nat}

@[simp] theorem size_refit (t : Tree) (holder : NodeId) (k : Nat) (new : NodeId) :
    (t.refit holder k new).size = t.size := by
  simp [refit]

@[simp] theorem span_refit (t : Tree) (holder : NodeId) (k : Nat) (new x : NodeId) :
    (t.refit holder k new).span x = t.span x := by
  simp [refit]

@[simp] theorem root_refit (t : Tree) (holder : NodeId) (k : Nat) (new : NodeId) :
    (t.refit holder k new).root = t.root := by
  unfold refit exchange release
  dsimp only
  split
  · split <;> rfl
  · rfl

theorem element_refit (h : holder < t.size) (new x : NodeId) :
    (t.refit holder k new).element x =
      if x = holder then (t.element holder).refill ((t.element holder).children.set k new)
      else t.element x := by
  rw [refit, element_exchange, element_setElement _ _ _ h]

theorem takes_set (e : Element NodeId) (k : Nat) (new : NodeId) :
    e.Takes (e.children.set k new).length :=
  Or.inr (List.length_set ..)

theorem children_refit (h : holder < t.size) (new : NodeId) :
    ((t.refit holder k new).element holder).children = (t.element holder).children.set k new := by
  rw [element_refit h, if_pos rfl, Element.children_refill _ _ (takes_set ..)]

theorem parent_refit (hk : (t.element holder).children[k]? = some old) (ho : old < t.size)
    {new : NodeId} (hn : new < t.size) (x : NodeId) :
    (t.refit holder k new).parent x =
      if x = new then some holder else if x = old then none else t.parent x := by
  unfold refit
  dsimp only
  rw [hk, parent_exchange _ _ _ (by simpa using ho) (by simpa using hn), parent_setElement]

theorem changes_refit (h : holder < t.size) (hk : (t.element holder).children[k]? = some old)
    (ho : old < t.size) {new : NodeId} (hn : new < t.size) :
    t.Changes (t.refit holder k new) [holder, old, new] where
  size_le := by simp
  span_eq x _ := span_refit t holder k new x
  reshaped x _ := by
    rw [element_refit h]
    split
    · rename_i hx
      rw [hx]
      exact ⟨_, takes_set .., rfl⟩
    · exact .refl _
  element_eq x _ hx := by
    rw [element_refit h, if_neg (fun he => hx (by simp [he]))]
  parent_eq x _ hx := by
    rw [parent_refit hk ho hn, if_neg (fun he => hx (by simp [he])),
      if_neg (fun he => hx (by simp [he]))]

/-- A node that is put into its own place changes nothing. -/
theorem refit_self (hk : (t.element holder).children[k]? = some old)
    (hp : t.parent old = some holder) : t.refit holder k old = t := by
  have hset : (t.element holder).children.set k old = (t.element holder).children := by
    obtain ⟨hlt, hget⟩ := List.getElem?_eq_some_iff.mp hk
    rw [← hget, List.set_getElem_self]
  unfold refit exchange release
  simp only [hk, hset, Element.refill_children, setElement_self rfl, if_true, setParent_self hp]

/-! ## Taking out a member -/

theorem takeOut_eq (hl : (t.element holder).isList = true)
    (hk : (t.element holder).children[k]? = some old) :
    t.takeOut holder k =
      (t.setElement holder ((t.element holder).refill
        ((t.element holder).children.eraseIdx k))).setParent old none := by
  unfold takeOut listRemove
  rcases he : t.element holder with members | _ | _ | _
  · rw [he] at hk
    have hk' : members[k]? = some old := hk
    simp only [hk']
    rfl
  all_goals rw [he] at hl; cases hl

theorem element_takeOut (hl : (t.element holder).isList = true)
    (hk : (t.element holder).children[k]? = some old) (h : holder < t.size) (x : NodeId) :
    (t.takeOut holder k).element x =
      if x = holder then (t.element holder).refill ((t.element holder).children.eraseIdx k)
      else t.element x := by
  rw [takeOut_eq hl hk, element_setParent, element_setElement _ _ _ h]

theorem children_takeOut (hl : (t.element holder).isList = true)
    (hk : (t.element holder).children[k]? = some old) (h : holder < t.size) :
    ((t.takeOut holder k).element holder).children = (t.element holder).children.eraseIdx k := by
  rw [element_takeOut hl hk h, if_pos rfl, Element.children_refill _ _ (Or.inl hl)]

theorem parent_takeOut (hl : (t.element holder).isList = true)
    (hk : (t.element holder).children[k]? = some old) (ho : old < t.size) (x : NodeId) :
    (t.takeOut holder k).parent x = if x = old then none else t.parent x := by
  rw [takeOut_eq hl hk, parent_setParent _ _ _ (by simpa using ho), parent_setElement]

theorem root_takeOut (hl : (t.element holder).isList = true)
    (hk : (t.element holder).children[k]? = some old) : (t.takeOut holder k).root = t.root := by
  rw [takeOut_eq hl hk]
  rfl

theorem changes_takeOut (hl : (t.element holder).isList = true)
    (hk : (t.element holder).children[k]? = some old) (h : holder < t.size) (ho : old < t.size) :
    t.Changes (t.takeOut holder k) [holder, old] where
  size_le := by simp [takeOut_eq hl hk]
  span_eq x _ := by simp [takeOut_eq hl hk]
  reshaped x _ := by
    rw [element_takeOut hl hk h]
    split
    · rename_i hx
      rw [hx]
      exact ⟨_, Or.inl hl, rfl⟩
    · exact .refl _
  element_eq x _ hx := by
    rw [element_takeOut hl hk h, if_neg (fun he => hx (by simp [he]))]
  parent_eq x _ hx := by
    rw [parent_takeOut hl hk ho, if_neg (fun he => hx (by simp [he]))]

end

end WikiHtml.Tree
