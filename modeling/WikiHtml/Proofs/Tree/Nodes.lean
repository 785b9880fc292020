-- What each change of a tree does to the element, the span and the parent of each node. Later
-- modules cite these laws and open no operation again.
import WikiHtml.Tree

namespace WikiHtml.Tree

variable {t : Tree} {id x : NodeId}

/-! ## Numbers without a node -/

theorem element_of_size_le (h : t.size ≤ x) : t.element x = .list [] := by
  rw [element, Array.getElem?_eq_none h]

theorem parent_of_size_le (h : t.size ≤ x) : t.parent x = none := by
  rw [parent, Array.getElem?_eq_none h]
  rfl

/-- A node is its element, its span and its parent. -/
theorem getElem?_nodes (h : x < t.size) :
    t.nodes[x]? = some ⟨t.element x, t.span x, t.parent x⟩ := by
  simp only [element, span, parent, Array.getElem?_eq_getElem h]
  rfl

/-! ## Parents -/

@[simp] theorem size_setParent (t : Tree) (id : NodeId) (p : Option NodeId) :
    (t.setParent id p).size = t.size := by
  simp [setParent, size]

@[simp] theorem element_setParent (t : Tree) (id : NodeId) (p : Option NodeId) (x : NodeId) :
    (t.setParent id p).element x = t.element x := by
  simp only [setParent, element, Array.getElem?_modify]
  by_cases hx : id = x
  · rw [if_pos hx]
    rcases t.nodes[x]? with _ | n <;> rfl
  · rw [if_neg hx]

@[simp] theorem span_setParent (t : Tree) (id : NodeId) (p : Option NodeId) (x : NodeId) :
    (t.setParent id p).span x = t.span x := by
  simp only [setParent, span, Array.getElem?_modify]
  split
  · rcases t.nodes[x]? with _ | n <;> rfl
  · rfl

@[simp] theorem root_setParent (t : Tree) (id : NodeId) (p : Option NodeId) :
    (t.setParent id p).root = t.root := rfl

theorem parent_setParent (t : Tree) (p : Option NodeId) (x : NodeId) (h : id < t.size) :
    (t.setParent id p).parent x = if x = id then p else t.parent x := by
  simp only [setParent, parent, Array.getElem?_modify]
  by_cases hx : x = id
  · subst hx
    rw [if_pos rfl, if_pos rfl, Array.getElem?_eq_getElem h]
    rfl
  · rw [if_neg (Ne.symm hx), if_neg hx]

/-! ## Elements -/

@[simp] theorem size_setElement (t : Tree) (id : NodeId) (e : Element NodeId) :
    (t.setElement id e).size = t.size := by
  simp [setElement, size]

@[simp] theorem parent_setElement (t : Tree) (id : NodeId) (e : Element NodeId) (x : NodeId) :
    (t.setElement id e).parent x = t.parent x := by
  simp only [setElement, parent, Array.getElem?_modify]
  split
  · rcases t.nodes[x]? with _ | n <;> rfl
  · rfl

@[simp] theorem span_setElement (t : Tree) (id : NodeId) (e : Element NodeId) (x : NodeId) :
    (t.setElement id e).span x = t.span x := by
  simp only [setElement, span, Array.getElem?_modify]
  split
  · rcases t.nodes[x]? with _ | n <;> rfl
  · rfl

theorem element_setElement (t : Tree) (e : Element NodeId) (x : NodeId) (h : id < t.size) :
    (t.setElement id e).element x = if x = id then e else t.element x := by
  simp only [setElement, element, Array.getElem?_modify]
  by_cases hx : x = id
  · subst hx
    rw [if_pos rfl, if_pos rfl, Array.getElem?_eq_getElem h]
    rfl
  · rw [if_neg (Ne.symm hx), if_neg hx]

/-! ## Changes that change nothing -/

theorem setParent_self {p : Option NodeId} (h : t.parent id = p) : t.setParent id p = t := by
  have hnodes : (t.setParent id p).nodes = t.nodes := by
    refine Array.ext_getElem? fun x => ?_
    simp only [setParent, Array.getElem?_modify]
    split
    · rename_i hx
      subst hx h
      rcases hn : t.nodes[id]? with _ | n <;> simp [parent, hn]
    · rfl
  exact congrArg (Tree.mk · t.root) hnodes

theorem setElement_self {e : Element NodeId} (h : t.element id = e) : t.setElement id e = t := by
  have hnodes : (t.setElement id e).nodes = t.nodes := by
    refine Array.ext_getElem? fun x => ?_
    simp only [setElement, Array.getElem?_modify]
    split
    · rename_i hx
      subst hx h
      rcases hn : t.nodes[id]? with _ | n <;> simp [element, hn]
    · rfl
  exact congrArg (Tree.mk · t.root) hnodes

/-! ## Exchanging what is held -/

@[simp] theorem size_release (t : Tree) (old new : Option NodeId) :
    (t.release old new).size = t.size := by
  unfold release
  split
  · split <;> simp
  · rfl

@[simp] theorem size_exchange (t : Tree) (p : NodeId) (old new : Option NodeId) :
    (t.exchange p old new).size = t.size := by
  unfold exchange
  dsimp only
  split <;> simp

@[simp] theorem element_release (t : Tree) (old new : Option NodeId) (x : NodeId) :
    (t.release old new).element x = t.element x := by
  unfold release
  split
  · split <;> simp
  · rfl

@[simp] theorem element_exchange (t : Tree) (p : NodeId) (old new : Option NodeId) (x : NodeId) :
    (t.exchange p old new).element x = t.element x := by
  unfold exchange
  dsimp only
  split <;> simp

@[simp] theorem span_release (t : Tree) (old new : Option NodeId) (x : NodeId) :
    (t.release old new).span x = t.span x := by
  unfold release
  split
  · split <;> simp
  · rfl

@[simp] theorem span_exchange (t : Tree) (p : NodeId) (old new : Option NodeId) (x : NodeId) :
    (t.exchange p old new).span x = t.span x := by
  unfold exchange
  dsimp only
  split <;> simp

@[simp] theorem root_exchange (t : Tree) (p : NodeId) (old new : Option NodeId) :
    (t.exchange p old new).root = t.root := by
  have hrelease : (t.release old new).root = t.root := by
    unfold release
    split
    · split <;> rfl
    · rfl
  unfold exchange
  dsimp only
  split
  · rw [root_setParent, hrelease]
  · exact hrelease

theorem parent_release (t : Tree) {old new : Option NodeId} (ho : ∀ c ∈ old, c < t.size) (x : NodeId) :
    (t.release old new).parent x = if old = some x ∧ old ≠ new then none else t.parent x := by
  rcases old with _ | o
  · simp [release]
  · unfold release
    dsimp only
    split
    · rename_i hsame
      rw [if_neg fun h => h.2 hsame]
    · rename_i hother
      rw [parent_setParent _ _ _ (ho o rfl)]
      simp only [Option.some.injEq, ne_eq, hother, not_false_eq_true, and_true, @eq_comm _ x o]

/-- The node that is held now gets its holder as parent, and the one that it replaces loses its own. -/
theorem parent_exchange_of (t : Tree) (p : NodeId) {old new : Option NodeId} (ho : ∀ c ∈ old, c < t.size)
    (hn : ∀ c ∈ new, c < t.size) (x : NodeId) :
    (t.exchange p old new).parent x =
      if new = some x then some p else if old = some x then none else t.parent x := by
  rcases new with _ | n
  · show (t.release old none).parent x = _
    rw [parent_release t ho]
    rcases old with _ | o <;> simp
  · unfold exchange
    dsimp only
    rw [parent_setParent _ _ _ (by simpa using hn n rfl), parent_release t ho]
    by_cases hx : x = n
    · simp [hx]
    · have hx' : ¬ n = x := Ne.symm hx
      simp only [hx, hx', if_false, Option.some.injEq]
      split
      · rename_i hold
        rw [if_pos hold.1]
      · rename_i hold
        rw [if_neg fun h => hold ⟨h, by rw [h]; simpa using hx⟩]

/-- The new node gets its holder as parent, and the one that it replaces loses its own. -/
theorem parent_exchange (t : Tree) (p : NodeId) {old new : NodeId} (x : NodeId)
    (ho : old < t.size) (hn : new < t.size) :
    (t.exchange p (some old) (some new)).parent x =
      if x = new then some p else if x = old then none else t.parent x := by
  rw [parent_exchange_of t p (by simpa using ho) (by simpa using hn)]
  simp only [Option.some.injEq, @eq_comm _ x]

/-! ## Replacing what is held -/

@[simp] theorem size_setChild (t : Tree) (id : NodeId) (child : Option NodeId) :
    (t.setChild id child).size = t.size := by
  unfold setChild
  split <;> simp

@[simp] theorem size_listSet (t : Tree) (list : NodeId) (k : Nat) (id : NodeId) :
    (t.listSet list k id).size = t.size := by
  unfold listSet
  split <;> simp

@[simp] theorem size_listRemove (t : Tree) (list : NodeId) (k : Nat) :
    (t.listRemove list k).2.size = t.size := by
  unfold listRemove
  split
  · split <;> simp
  · rfl

@[simp] theorem size_setCellContent (t : Tree) (table : NodeId) (row cell : Nat)
    (content : Option NodeId) : (t.setCellContent table row cell content).size = t.size := by
  unfold setCellContent
  split <;> simp

/-! ## Adding nodes -/

@[simp] theorem size_adoptAll (t : Tree) (p : NodeId) (ids : List NodeId) :
    (t.adoptAll p ids).size = t.size := by
  unfold adoptAll
  induction ids generalizing t with
  | nil => rfl
  | cons a as ih => simp [ih]

@[simp] theorem element_adoptAll (t : Tree) (p : NodeId) (ids : List NodeId) (x : NodeId) :
    (t.adoptAll p ids).element x = t.element x := by
  unfold adoptAll
  induction ids generalizing t with
  | nil => rfl
  | cons a as ih => simp [ih]

@[simp] theorem span_adoptAll (t : Tree) (p : NodeId) (ids : List NodeId) (x : NodeId) :
    (t.adoptAll p ids).span x = t.span x := by
  unfold adoptAll
  induction ids generalizing t with
  | nil => rfl
  | cons a as ih => simp [ih]

@[simp] theorem root_adoptAll (t : Tree) (p : NodeId) (ids : List NodeId) :
    (t.adoptAll p ids).root = t.root := by
  unfold adoptAll
  induction ids generalizing t with
  | nil => rfl
  | cons a as ih => simp [ih]

theorem parent_adoptAll (t : Tree) (p : NodeId) (ids : List NodeId) (x : NodeId)
    (h : ∀ a ∈ ids, a < t.size) :
    (t.adoptAll p ids).parent x = if x ∈ ids then some p else t.parent x := by
  induction ids generalizing t with
  | nil => simp [adoptAll]
  | cons a as ih =>
    have ha : a < t.size := h a (by simp)
    show ((t.setParent a (some p)).adoptAll p as).parent x = _
    rw [ih _ (fun b hb => by simpa using h b (by simp [hb])), parent_setParent _ _ _ ha]
    by_cases hx : x ∈ as
    · simp [hx]
    · by_cases hxa : x = a <;> simp [hx, hxa]

@[simp] theorem add_fst (t : Tree) (e : Element NodeId) (s : Option Span) :
    (t.add e s).1 = t.size := rfl

@[simp] theorem size_add (t : Tree) (e : Element NodeId) (s : Option Span) :
    (t.add e s).2.size = t.size + 1 := by
  show ((Tree.mk _ t.root).adoptAll _ _).size = _
  rw [size_adoptAll]
  simp [size]

theorem element_add (t : Tree) (e : Element NodeId) (s : Option Span) (x : NodeId) :
    (t.add e s).2.element x = if x = t.size then e else t.element x := by
  simp only [add, element_adoptAll]
  simp only [element, Array.getElem?_push]
  by_cases hx : x = t.size
  · rw [if_pos (show x = t.nodes.size from hx), if_pos hx]
  · rw [if_neg (show ¬ x = t.nodes.size from hx), if_neg hx]

theorem span_add (t : Tree) (e : Element NodeId) (s : Option Span) (x : NodeId) :
    (t.add e s).2.span x = if x = t.size then s else t.span x := by
  simp only [add, span_adoptAll]
  simp only [span, Array.getElem?_push]
  by_cases hx : x = t.size
  · rw [if_pos (show x = t.nodes.size from hx), if_pos hx]
    rfl
  · rw [if_neg (show ¬ x = t.nodes.size from hx), if_neg hx]

theorem parent_add (t : Tree) {e : Element NodeId} (s : Option Span) {x : NodeId}
    (h : ∀ a ∈ e.children, a ≤ t.size) (hx : x < t.size) :
    (t.add e s).2.parent x = if x ∈ e.children then some t.size else t.parent x := by
  simp only [add]
  rw [parent_adoptAll _ _ _ _ (fun a ha => by simpa [size, Nat.lt_succ_iff] using h a ha)]
  have hne : ¬ x = t.nodes.size := Nat.ne_of_lt hx
  simp only [parent, Array.getElem?_push, if_neg hne]

theorem parent_add_self (t : Tree) {e : Element NodeId} (s : Option Span)
    (h : ∀ a ∈ e.children, a < t.size) : (t.add e s).2.parent t.size = none := by
  simp only [add]
  rw [parent_adoptAll _ _ _ _ (fun a ha => by
    simpa [size] using Nat.lt_succ_of_lt (h a ha)),
    if_neg (fun hm => Nat.lt_irrefl _ (h _ hm))]
  simp [parent, size]

@[simp] theorem root_add (t : Tree) (e : Element NodeId) (s : Option Span) :
    (t.add e s).2.root = t.root := by
  simp [add]

/-! ## The top -/

@[simp] theorem size_setRoot (t : Tree) (id : NodeId) : (t.setRoot id).size = t.size :=
  size_setParent t id none

@[simp] theorem element_setRoot (t : Tree) (id x : NodeId) :
    (t.setRoot id).element x = t.element x :=
  element_setParent t id none x

@[simp] theorem span_setRoot (t : Tree) (id x : NodeId) : (t.setRoot id).span x = t.span x :=
  span_setParent t id none x

theorem parent_setRoot (t : Tree) (x : NodeId) (h : id < t.size) :
    (t.setRoot id).parent x = if x = id then none else t.parent x :=
  parent_setParent t none x h

theorem setRoot_self (hr : t.root = some id) (hp : t.parent id = none) : t.setRoot id = t := by
  rw [setRoot, setParent_self hp, ← hr]

@[simp] theorem root_setRoot (t : Tree) (id : NodeId) : (t.setRoot id).root = some id := rfl

end WikiHtml.Tree
