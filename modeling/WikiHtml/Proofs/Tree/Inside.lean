-- Trees in which no number is named that has no node. Every change keeps this that puts in only
-- numbers of nodes.
import WikiHtml.Proofs.Tree.Sharing

namespace WikiHtml

/-- All numbers that a node names are below a bound. -/
structure Node.Below (bound : Nat) (n : Node) : Prop where
  held : ∀ c ∈ n.element.children, c < bound
  parent : ∀ p ∈ n.parent, p < bound

theorem Node.Below.mono {bound more : Nat} {n : Node} (h : n.Below bound) (hm : bound ≤ more) :
    n.Below more :=
  ⟨fun c hc => Nat.lt_of_lt_of_le (h.held c hc) hm, fun p hp => Nat.lt_of_lt_of_le (h.parent p hp) hm⟩

namespace Tree

/-- Every number that is named in a tree is that of a node. -/
structure Inside (t : Tree) : Prop where
  below : ∀ (x : Nat) (n : Node), t.nodes[x]? = some n → n.Below t.size
  root : ∀ x ∈ t.root, x < t.size

namespace Inside

variable {t : Tree} {id : NodeId}

theorem held (h : t.Inside) {x c : NodeId} (hc : c ∈ (t.element x).children) : c < t.size := by
  rcases Nat.lt_or_ge x t.size with hx | hx
  · exact (h.below x _ (getElem?_nodes hx)).held c hc
  · rw [element_of_size_le hx] at hc
    cases hc

theorem member (h : t.Inside) {list x : NodeId} (hx : x ∈ t.members list) : x < t.size := by
  unfold Tree.members at hx
  cases he : t.element list with
  | list members =>
    rw [he] at hx
    exact h.held (x := list) (by rw [he]; exact hx)
  | _ =>
    rw [he] at hx
    cases hx

theorem parent (h : t.Inside) {x p : NodeId} (hp : t.parent x = some p) : p < t.size := by
  rcases Nat.lt_or_ge x t.size with hx | hx
  · exact (h.below x _ (getElem?_nodes hx)).parent p hp
  · rw [parent_of_size_le hx] at hp
    cases hp

theorem empty : Tree.empty.Inside where
  below x n hn := by simp [Tree.empty] at hn
  root x hx := by cases hx

/-! ## Changes -/

theorem modify (h : t.Inside) (id : NodeId) {change : Node → Node}
    (hc : ∀ n : Node, n.Below t.size → (change n).Below t.size) :
    Inside { t with nodes := t.nodes.modify id change } where
  below x n hn := by
    have hsize : Tree.size { t with nodes := t.nodes.modify id change } = t.size := by simp [size]
    rw [hsize]
    rw [Array.getElem?_modify] at hn
    split at hn
    · obtain ⟨m, hm, rfl⟩ := Option.map_eq_some_iff.mp hn
      exact hc m (h.below x m hm)
    · exact h.below x n hn
  root x hx := by simpa [size] using h.root x hx

theorem setParent (h : t.Inside) (id : NodeId) {p : Option NodeId} (hp : ∀ x ∈ p, x < t.size) :
    (t.setParent id p).Inside :=
  h.modify id fun _ hn => ⟨hn.held, hp⟩

theorem setElement (h : t.Inside) (id : NodeId) {e : Element NodeId}
    (he : ∀ c ∈ e.children, c < t.size) : (t.setElement id e).Inside :=
  h.modify id fun _ hn => ⟨he, hn.parent⟩

theorem setRoot (h : t.Inside) (hid : id < t.size) : (t.setRoot id).Inside :=
  { h.setParent id (p := none) (by simp) with
    root := fun x hx => by
      obtain rfl : id = x := Option.some.inj hx
      rwa [size_setRoot] }

theorem release (h : t.Inside) (old new : Option NodeId) : (t.release old new).Inside := by
  unfold Tree.release
  split
  · split
    · exact h
    · exact h.setParent _ (by simp)
  · exact h

theorem exchange (h : t.Inside) {p : NodeId} (hp : p < t.size) (old new : Option NodeId) :
    (t.exchange p old new).Inside := by
  cases new with
  | none => exact h.release old none
  | some id => exact (h.release old (some id)).setParent id (by simpa using hp)

theorem setChild (h : t.Inside) (hid : id < t.size) {child : Option NodeId}
    (hc : ∀ c ∈ child, c < t.size) : (t.setChild id child).Inside := by
  unfold Tree.setChild
  split
  · rename_i w old he
    have hset : (t.setElement id (.wrap w child)).Inside :=
      h.setElement id fun c hm => hc c (Option.mem_toList.mp hm)
    exact hset.exchange (by simpa using hid) _ _
  · exact h

theorem listSet (h : t.Inside) {list : NodeId} (hl : list < t.size) (k : Nat) (hid : id < t.size) :
    (t.listSet list k id).Inside := by
  unfold Tree.listSet
  split
  · rename_i members he
    have hset : (t.setElement list (.list (members.set k id))).Inside := by
      refine h.setElement list fun c hm => ?_
      rcases List.mem_or_eq_of_mem_set hm with hm | rfl
      · exact h.held (x := list) (by rw [he]; exact hm)
      · exact hid
    exact hset.exchange (by simpa using hl) _ _
  · exact h

theorem listRemove (h : t.Inside) (list : NodeId) (k : Nat) : (t.listRemove list k).2.Inside := by
  unfold Tree.listRemove
  split
  · rename_i members he
    split
    · have hset : (t.setElement list (.list (members.eraseIdx k))).Inside :=
        h.setElement list fun c hm =>
          h.held (x := list) (by rw [he]; exact List.mem_of_mem_eraseIdx hm)
      exact hset.setParent _ (by simp)
    · exact h
  · exact h

theorem mem_rowContents_modify {cells : List (Cell NodeId)} {cell : Nat} {content : Option NodeId}
    {c : NodeId}
    (h : c ∈ Element.rowContents (cells.modify cell ({ · with content := content }))) :
    c ∈ Element.rowContents cells ∨ c ∈ content := by
  induction cells generalizing cell with
  | nil => simp [Element.rowContents] at h
  | cons first rest ih =>
    cases cell with
    | zero =>
      rw [List.modify_zero_cons, Element.rowContents_cons, List.mem_append] at h
      rw [Element.rowContents_cons, List.mem_append]
      rcases h with h | h
      · exact Or.inr (Option.mem_toList.mp h)
      · exact Or.inl (Or.inr h)
    | succ cell =>
      rw [List.modify_succ_cons, Element.rowContents_cons, List.mem_append] at h
      rw [Element.rowContents_cons, List.mem_append]
      rcases h with h | h
      · exact Or.inl (Or.inl h)
      · exact (ih h).imp_left Or.inr

theorem mem_setContent {rows : List (Row NodeId)} {row cell : Nat} {content : Option NodeId}
    {c : NodeId} (h : c ∈ Element.contents (setContent rows row cell content)) :
    c ∈ Element.contents rows ∨ c ∈ content := by
  unfold setContent at h
  induction rows generalizing row with
  | nil => simp [Element.contents] at h
  | cons first rest ih =>
    cases row with
    | zero =>
      rw [List.modify_zero_cons, Element.contents_cons, List.mem_append] at h
      rw [Element.contents_cons, List.mem_append]
      rcases h with h | h
      · exact (mem_rowContents_modify h).imp_left Or.inl
      · exact Or.inl (Or.inr h)
    | succ row =>
      rw [List.modify_succ_cons, Element.contents_cons, List.mem_append] at h
      rw [Element.contents_cons, List.mem_append]
      rcases h with h | h
      · exact Or.inl (Or.inl h)
      · exact (ih h).imp_left Or.inr

theorem setCellContent (h : t.Inside) {table : NodeId} (ht : table < t.size) (row cell : Nat)
    {content : Option NodeId} (hc : ∀ c ∈ content, c < t.size) :
    (t.setCellContent table row cell content).Inside := by
  unfold Tree.setCellContent
  split
  · rename_i params rows he
    have hset : (t.setElement table (.table params (setContent rows row cell content))).Inside := by
      refine h.setElement table fun c hm => ?_
      rcases mem_setContent hm with hm | hm
      · exact h.held (x := table) (by rw [he]; exact hm)
      · exact hc c hm
    exact hset.exchange (by simpa using ht) _ _
  · exact h

/-! ## Adding -/

theorem add (h : t.Inside) {e : Element NodeId} (span : Option Span)
    (he : ∀ c ∈ e.children, c < t.size) : (t.add e span).2.Inside where
  below x n hn := by
    have hx : x < (t.add e span).2.size := (Array.getElem?_eq_some_iff.mp hn).1
    have hn' := getElem?_nodes hx
    obtain rfl := Option.some.inj (hn.symm.trans hn')
    rw [size_add] at hx ⊢
    refine ⟨fun c hc => ?_, fun p hp => ?_⟩
    · dsimp only at hc
      rw [element_add] at hc
      split at hc
      · exact Nat.lt_succ_of_lt (he c hc)
      · exact Nat.lt_succ_of_lt (h.held hc)
    · dsimp only at hp
      rcases Nat.lt_or_eq_of_le (Nat.le_of_lt_succ hx) with hlt | rfl
      · rw [parent_add t span (fun c hc => Nat.le_of_lt (he c hc)) hlt] at hp
        split at hp
        · obtain rfl := Option.some.inj hp
          exact Nat.lt_succ_self _
        · exact Nat.lt_succ_of_lt (h.parent hp)
      · rw [parent_add_self t span he] at hp
        cases hp
  root x hx := by
    rw [root_add] at hx
    rw [size_add]
    exact Nat.lt_succ_of_lt (h.root x hx)

end Inside

/-- An added document names its own nodes only. -/
theorem Added.inside {t t' : Tree} {o : Outline} {d : Document} (h : t.Added t' [o] [d])
    (ht : t.Inside) : t'.Inside where
  below x n hn := by
    have hx : x < t'.size := (Array.getElem?_eq_some_iff.mp hn).1
    obtain rfl := Option.some.inj (hn.symm.trans (getElem?_nodes hx))
    have hs : t'.Stands [] o := h.stands o (by simp)
    have hle := h.changes.size_le
    rcases Nat.lt_or_ge x t.size with hlt | hge
    · rw [h.changes.element_eq x hlt (by simp), h.changes.parent_eq x hlt (by simp)]
      exact ⟨fun c hc => Nat.lt_of_lt_of_le (ht.held hc) hle,
        fun p hp => Nat.lt_of_lt_of_le (ht.parent hp) hle⟩
    · have hm : x ∈ o.ids := h.mem_ids_iff.mpr ⟨hge, hx⟩
      refine ⟨fun c hc => ?_, fun p hp => ?_⟩
      · exact hs.spans.lt_size c (Outline.mem_ids_of_edge (hs.spans.edge_iff.mpr ⟨hm, hc⟩))
      · rcases Outline.exists_edge hm with rfl | ⟨holder, hholder, he⟩
        · rw [Option.mem_def, h.loose o (by simp)] at hp
          cases hp
        · have hlinked := hs.linked _ he
          rw [if_neg List.not_mem_nil] at hlinked
          rw [Option.mem_def, hlinked] at hp
          obtain rfl := Option.some.inj hp
          exact hs.spans.lt_size _ hholder
  root x hx := by
    rw [h.root_eq] at hx
    exact Nat.lt_of_lt_of_le (ht.root x hx) h.changes.size_le

end Tree

end WikiHtml
