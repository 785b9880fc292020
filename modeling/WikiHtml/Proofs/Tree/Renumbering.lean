-- Trees that differ only in the numbers of their nodes. What is changed in one of them is changed in the
-- other, at the node of the other number; and what is asked about a node has the same answer.
import Mathlib.Logic.Equiv.Defs
import WikiHtml.Proofs.Tree.Planting

namespace WikiHtml

/-! ## Renaming what an element holds -/

namespace Element

variable {α β γ : Type}

theorem refillCells_map (f : α → β) (cells : List (Cell α)) (more : List β) :
    refillCells cells ((rowContents cells).map f ++ more) =
      cells.map fun cell => ⟨cell.header, cell.params, cell.content.map f⟩ := by
  induction cells with
  | nil => rfl
  | cons cell rest ih =>
    obtain ⟨header, params, _ | x⟩ := cell
    · exact congrArg (_ :: ·) ih
    · exact congrArg (_ :: ·) ih

theorem refillRows_map (f : α → β) (rows : List (Row α)) :
    refillRows rows ((contents rows).map f) = rows.map fun row =>
      ⟨row.params, row.cells.map fun cell => ⟨cell.header, cell.params, cell.content.map f⟩⟩ := by
  induction rows with
  | nil => rfl
  | cons row rest ih =>
    have hl : (rowContents row.cells).length = ((rowContents row.cells).map f).length := by
      rw [List.length_map]
    rw [contents_cons, List.map_append, refillRows, refillCells_map, hl, List.drop_left, ih]
    rfl

theorem map_eq_refill (f : α → β) (e : Element α) : e.map f = e.refill (e.children.map f) := by
  cases e with
  | list members => rfl
  | wrap w child => cases child <;> rfl
  | table params rows => exact congrArg (Element.table params) (refillRows_map f rows).symm
  | leaf l => rfl

theorem children_map (f : α → β) (e : Element α) : (e.map f).children = e.children.map f := by
  rw [map_eq_refill, children_refill _ _ (Or.inr (List.length_map f))]

theorem refill_map (f : α → β) (e : Element α) (values : List γ) :
    (e.map f).refill values = e.refill values := by
  rw [map_eq_refill, refill_refill _ _ _ (Or.inr (List.length_map f))]

theorem map_map (f : α → β) (g : β → γ) (e : Element α) : (e.map f).map g = e.map (g ∘ f) := by
  rw [map_eq_refill g, children_map, refill_map, List.map_map, ← map_eq_refill]

theorem map_congr {f g : α → β} {e : Element α} (h : ∀ c ∈ e.children, f c = g c) :
    e.map f = e.map g := by
  rw [map_eq_refill, map_eq_refill, List.map_congr_left h]

theorem map_self {f : α → α} {e : Element α} (h : ∀ c ∈ e.children, f c = c) : e.map f = e := by
  rw [map_congr (g := fun c => c) h, map_eq_refill, List.map_id', refill_children]

theorem map_refill (f : β → γ) {e : Element α} {values : List β} (h : e.Takes values.length) :
    (e.refill values).map f = e.refill (values.map f) := by
  rw [map_eq_refill, children_refill e values h, refill_refill e values _ h]

@[simp] theorem isList_map (f : α → β) (e : Element α) : (e.map f).isList = e.isList := by
  rw [map_eq_refill, isList_refill]

@[simp] theorem isPage_map (f : α → β) (e : Element α) : (e.map f).isPage = e.isPage := by
  rw [map_eq_refill, isPage_refill]

end Element

/-- A node with other numbers for those that it names. -/
def Node.renumber (f : NodeId → NodeId) (n : Node) : Node :=
  ⟨n.element.map f, n.span, n.parent.map f⟩

namespace Tree

/-! ## Trees with other numbers -/

/-- The nodes of a tree, at the numbers that they get. A number without a node stays. -/
structure Renumbered (f : Equiv.Perm NodeId) (t u : Tree) : Prop where
  nodes_eq : ∀ x : Nat, u.nodes[f x]? = t.nodes[x]?.map (Node.renumber f)
  root_eq : u.root = t.root.map f
  size_eq : u.size = t.size
  fixed : ∀ x, t.size ≤ x → f x = x

namespace Renumbered

variable {f g : Equiv.Perm NodeId} {t u v : Tree} {id : NodeId}

/-! ### Nodes -/

theorem element_eq (h : Renumbered f t u) (x : NodeId) : u.element (f x) = (t.element x).map f := by
  rw [element, element, h.nodes_eq]
  cases t.nodes[x]? <;> rfl

theorem span_eq (h : Renumbered f t u) (x : NodeId) : u.span (f x) = t.span x := by
  rw [span, span, h.nodes_eq]
  cases t.nodes[x]? <;> rfl

theorem parent_eq (h : Renumbered f t u) (x : NodeId) : u.parent (f x) = (t.parent x).map f := by
  rw [parent, parent, h.nodes_eq]
  cases t.nodes[x]? <;> rfl

theorem size_fixed (h : Renumbered f t u) : f t.size = u.size := by
  rw [h.size_eq, h.fixed _ (Nat.le_refl _)]

theorem lt_size_iff (h : Renumbered f t u) {x : NodeId} : f x < u.size ↔ x < t.size := by
  rw [h.size_eq]
  constructor
  · intro hx
    refine Nat.lt_of_not_le fun hle => ?_
    rw [h.fixed x hle] at hx
    exact Nat.lt_irrefl _ (Nat.lt_of_lt_of_le hx hle)
  · intro hx
    refine Nat.lt_of_not_le fun hle => ?_
    have hfx : f x = x := f.injective (h.fixed _ hle)
    rw [hfx] at hle
    exact Nat.lt_irrefl _ (Nat.lt_of_lt_of_le hx hle)

theorem refl (t : Tree) : Renumbered (Equiv.refl _) t t where
  nodes_eq x := by
    have hsame : ∀ n : Node, n.renumber (Equiv.refl NodeId) = n := by
      intro n
      rw [Node.renumber, Element.map_self fun c _ => Equiv.refl_apply c]
      simp
    rw [Equiv.refl_apply]
    cases t.nodes[x]? with
    | none => rfl
    | some n => rw [Option.map_some, hsame]
  root_eq := by simp
  size_eq := rfl
  fixed _ _ := rfl

theorem trans (h : Renumbered f t u) (h' : Renumbered g u v) : Renumbered (f.trans g) t v where
  nodes_eq x := by
    have hboth : ∀ n : Node, (n.renumber f).renumber g = n.renumber (f.trans g) := by
      intro n
      simp only [Node.renumber, Element.map_map, Option.map_map]
      rfl
    rw [Equiv.trans_apply, h'.nodes_eq, h.nodes_eq, Option.map_map]
    cases t.nodes[x]? with
    | none => rfl
    | some n => exact congrArg some (hboth n)
  root_eq := by
    rw [h'.root_eq, h.root_eq, Option.map_map]
    rfl
  size_eq := h'.size_eq.trans h.size_eq
  fixed x hx := by
    rw [Equiv.trans_apply, h.fixed x hx, h'.fixed x (h.size_eq.symm ▸ hx)]

theorem symm (h : Renumbered f t u) : Renumbered f.symm u t where
  nodes_eq y := by
    obtain ⟨x, rfl⟩ := f.surjective y
    have hback : ∀ n : Node, (n.renumber f).renumber f.symm = n := by
      intro n
      obtain ⟨e, span, parent⟩ := n
      simp only [Node.renumber, Element.map_map, Option.map_map, Equiv.symm_comp_self, Option.map_id,
        id_eq, Node.mk.injEq, and_true]
      exact Element.map_self fun _ _ => rfl
    rw [Equiv.symm_apply_apply, h.nodes_eq, Option.map_map]
    cases t.nodes[x]? with
    | none => rfl
    | some n => exact (congrArg some (hback n)).symm
  root_eq := by
    rw [h.root_eq, Option.map_map, Equiv.symm_comp_self, Option.map_id, id_eq]
  size_eq := h.size_eq.symm
  fixed y hy := by
    rw [Equiv.symm_apply_eq, h.fixed y (h.size_eq ▸ hy)]

theorem mem_children (h : Renumbered f t u) {x c : NodeId} (hc : c ∈ (t.element x).children) :
    f c ∈ (u.element (f x)).children := by
  rw [h.element_eq, Element.children_map]
  exact List.mem_map_of_mem hc

theorem reaches (h : Renumbered f t u) {x y : NodeId} (hxy : t.Reaches x y) :
    u.Reaches (f x) (f y) :=
  hxy.lift f fun _ _ => h.mem_children

/-! ### Changes -/

/-- A node may be changed in both trees alike. -/
theorem modify (h : Renumbered f t u) (id : NodeId) {change change' : Node → Node}
    (hc : ∀ n, change' (n.renumber f) = (change n).renumber f) :
    Renumbered f { t with nodes := t.nodes.modify id change }
      { u with nodes := u.nodes.modify (f id) change' } where
  nodes_eq x := by
    rw [Array.getElem?_modify, Array.getElem?_modify]
    by_cases hx : id = x
    · rw [if_pos hx, if_pos (congrArg f hx), h.nodes_eq, Option.map_map, Option.map_map]
      cases t.nodes[x]? with
      | none => rfl
      | some n => exact congrArg some (hc n)
    · rw [if_neg hx, if_neg fun he => hx (f.injective he), h.nodes_eq]
  root_eq := h.root_eq
  size_eq := by simpa [size] using h.size_eq
  fixed x hx := h.fixed x (by simpa [size] using hx)

theorem setParent (h : Renumbered f t u) (id : NodeId) (p : Option NodeId) :
    Renumbered f (t.setParent id p) (u.setParent (f id) (p.map f)) :=
  h.modify id fun _ => rfl

theorem setElement (h : Renumbered f t u) (id : NodeId) (e : Element NodeId) :
    Renumbered f (t.setElement id e) (u.setElement (f id) (e.map f)) :=
  h.modify id fun _ => rfl

theorem setRoot (h : Renumbered f t u) (id : NodeId) : Renumbered f (t.setRoot id) (u.setRoot (f id)) :=
  { h.setParent id none with root_eq := rfl }

theorem adoptAll (h : Renumbered f t u) (p : NodeId) (ids : List NodeId) :
    Renumbered f (t.adoptAll p ids) (u.adoptAll (f p) (ids.map f)) := by
  induction ids generalizing t u with
  | nil => exact h
  | cons id rest ih => exact ih (h.setParent id (some p))

theorem push (h : Renumbered f t u) (n : Node) :
    Renumbered f { t with nodes := t.nodes.push n } { u with nodes := u.nodes.push (n.renumber f) } where
  nodes_eq x := by
    have hlast : f x = u.nodes.size ↔ x = t.nodes.size := by
      rw [← show f t.size = u.nodes.size from h.size_fixed]
      exact f.injective.eq_iff
    rw [Array.getElem?_push, Array.getElem?_push]
    by_cases hx : x = t.nodes.size
    · rw [if_pos hx, if_pos (hlast.mpr hx)]
      rfl
    · rw [if_neg hx, if_neg fun he => hx (hlast.mp he), h.nodes_eq]
  root_eq := h.root_eq
  size_eq := by simpa [size] using h.size_eq
  fixed x hx := h.fixed x (Nat.le_of_succ_le (by simpa [size] using hx))

/-- A node that is added gets the same number in both trees. -/
theorem add (h : Renumbered f t u) (e : Element NodeId) (s : Option Span) :
    Renumbered f (t.add e s).2 (u.add (e.map f) s).2 := by
  have hadopted := (h.push ⟨e, s, none⟩).adoptAll t.size e.children
  rw [h.size_fixed, ← Element.children_map] at hadopted
  exact hadopted

theorem release (h : Renumbered f t u) (old new : Option NodeId) :
    Renumbered f (t.release old new) (u.release (old.map f) (new.map f)) := by
  cases old with
  | none => exact h
  | some id =>
    unfold Tree.release
    dsimp only [Option.map_some]
    by_cases hsame : some id = new
    · subst hsame
      rw [if_pos rfl, if_pos (show some (f id) = Option.map f (some id) from rfl)]
      exact h
    · have hother : ¬ some (f id) = new.map f := fun he =>
        hsame (Option.map_injective f.injective he)
      rw [if_neg hsame, if_neg hother]
      exact h.setParent id none

theorem exchange (h : Renumbered f t u) (p : NodeId) (old new : Option NodeId) :
    Renumbered f (t.exchange p old new) (u.exchange (f p) (old.map f) (new.map f)) := by
  cases new with
  | none => exact h.release old none
  | some id => exact (h.release old (some id)).setParent id (some p)

theorem setChild (h : Renumbered f t u) (id : NodeId) (child : Option NodeId) :
    Renumbered f (t.setChild id child) (u.setChild (f id) (child.map f)) := by
  unfold Tree.setChild
  rw [h.element_eq]
  cases t.element id with
  | wrap w old => exact (h.setElement id (.wrap w child)).exchange id old child
  | _ => exact h

theorem listSet (h : Renumbered f t u) (list : NodeId) (k : Nat) (id : NodeId) :
    Renumbered f (t.listSet list k id) (u.listSet (f list) k (f id)) := by
  unfold Tree.listSet
  rw [h.element_eq]
  cases t.element list with
  | list members =>
    have hset := (h.setElement list (.list (members.set k id))).exchange list members[k]? (some id)
    simp only [Element.map, List.map_set, ← List.getElem?_map] at hset
    exact hset
  | _ => exact h

theorem listRemove (h : Renumbered f t u) (list : NodeId) (k : Nat) :
    Renumbered f (t.listRemove list k).2 (u.listRemove (f list) k).2 := by
  unfold Tree.listRemove
  rw [h.element_eq]
  cases t.element list with
  | list members =>
    simp only [Element.map, List.getElem?_map]
    cases members[k]? with
    | none => exact h
    | some old =>
      have hremove := (h.setElement list (.list (members.eraseIdx k))).setParent old none
      simp only [Element.map, ← List.eraseIdx_map] at hremove
      exact hremove
  | _ => exact h

theorem map_modify {α β : Type} {m : α → β} {change : α → α} {change' : β → β}
    (h : ∀ x, m (change x) = change' (m x)) (xs : List α) (k : Nat) :
    (xs.map m).modify k change' = (xs.modify k change).map m := by
  induction xs generalizing k with
  | nil => simp
  | cons x rest ih =>
    cases k with
    | zero => simp [h]
    | succ k => simp [ih]

theorem setContent_map (f : NodeId → NodeId) (params : Option String) (rows : List (Row NodeId))
    (row cell : Nat) (content : Option NodeId) :
    (Element.table params (setContent rows row cell content)).map f = .table params
      (setContent (rows.map fun row => ⟨row.params, row.cells.map fun cell =>
        ⟨cell.header, cell.params, cell.content.map f⟩⟩) row cell (content.map f)) := by
  refine congrArg (Element.table params) (map_modify (fun r => ?_) rows row).symm
  refine congrArg (Row.mk r.params) (map_modify (fun c => ?_) r.cells cell).symm
  rfl

theorem cellContent_map (f : NodeId → NodeId) (rows : List (Row NodeId)) (row cell : Nat) :
    cellContent (rows.map fun row => ⟨row.params, row.cells.map fun cell =>
      ⟨cell.header, cell.params, cell.content.map f⟩⟩) row cell =
      (cellContent rows row cell).map f := by
  unfold cellContent
  rw [List.getElem?_map]
  cases rows[row]? with
  | none => rfl
  | some r =>
    dsimp only [Option.map_some, Option.bind_eq_bind, Option.bind_some]
    rw [List.getElem?_map]
    cases r.cells[cell]? <;> rfl

theorem setCellContent (h : Renumbered f t u) (table : NodeId) (row cell : Nat)
    (content : Option NodeId) :
    Renumbered f (t.setCellContent table row cell content)
      (u.setCellContent (f table) row cell (content.map f)) := by
  unfold Tree.setCellContent
  rw [h.element_eq]
  cases t.element table with
  | table params rows =>
    have hset := (h.setElement table (.table params (setContent rows row cell content))).exchange
      table (cellContent rows row cell) content
    rw [setContent_map, ← cellContent_map] at hset
    exact hset
  | _ => exact h

theorem addMembers {ds : List Document}
    (hd : ∀ d ∈ ds, ∀ {t u : Tree}, Renumbered f t u →
      (u.addDocument d).1 = f (t.addDocument d).1 ∧
        Renumbered f (t.addDocument d).2 (u.addDocument d).2) (h : Renumbered f t u) :
    (u.addMembers ds).1 = (t.addMembers ds).1.map f ∧
      Renumbered f (t.addMembers ds).2 (u.addMembers ds).2 := by
  induction ds generalizing t u with
  | nil =>
    rw [Tree.addMembers, Tree.addMembers]
    exact ⟨rfl, h⟩
  | cons d rest ih =>
    obtain ⟨hid, hfirst⟩ := hd d List.mem_cons_self h
    obtain ⟨hids, hrest⟩ := ih (fun x hx => hd x (List.mem_cons_of_mem d hx)) hfirst
    rw [Tree.addMembers, Tree.addMembers]
    dsimp only
    exact ⟨by rw [hid, hids, List.map_cons], hrest⟩

/-- A document that is added gets the same numbers in both trees. -/
theorem addDocument (h : Renumbered f t u) (d : Document) :
    (u.addDocument d).1 = f (t.addDocument d).1 ∧
      Renumbered f (t.addDocument d).2 (u.addDocument d).2 := by
  induction d using Document.induct generalizing t u with
  | node e span ih =>
    obtain ⟨hids, hheld⟩ := addMembers (fun d hd => ih d hd) h
    have hadded := hheld.add (e.refill (t.addMembers e.children).1) span
    rw [Element.map_refill f (Or.inr (length_addMembers t e.children)), ← hids] at hadded
    rw [addDocument_eq, addDocument_eq]
    exact ⟨hheld.size_fixed.symm, hadded⟩

/-! ### Questions -/

theorem members_eq (h : Renumbered f t u) (list : NodeId) :
    u.members (f list) = (t.members list).map f := by
  unfold Tree.members
  rw [h.element_eq]
  cases t.element list <;> rfl

theorem documentWithin_eq (h : Renumbered f t u) (bound : Nat) (x : NodeId) :
    u.documentWithin bound (f x) = t.documentWithin bound x := by
  induction bound generalizing x with
  | zero => rfl
  | succ bound ih =>
    rw [documentWithin, documentWithin, h.nodes_eq]
    cases t.nodes[x]? with
    | none => rfl
    | some n =>
      have hheld : (n.element.map f).mapM (u.documentWithin bound) =
          n.element.mapM (t.documentWithin bound) := by
        rw [Element.mapM_eq, Element.mapM_eq, Element.children_map, List.mapM_map,
          show u.documentWithin bound ∘ f = t.documentWithin bound from funext ih]
        congr 1
        funext ds
        exact Element.refill_map f n.element ds
      dsimp only [Option.map_some, Option.bind_eq_bind, Option.bind_some, Node.renumber]
      rw [hheld]

/-- A node has the same document in both trees. -/
theorem document?_eq (h : Renumbered f t u) (x : NodeId) : u.document? (f x) = t.document? x := by
  rw [document?, h.size_eq, h.documentWithin_eq, document?]

theorem contextWithin_eq (h : Renumbered f t u) (isGlobal : Bool) (steps : Nat) (x : NodeId) :
    u.contextWithin isGlobal steps (f x) = (t.contextWithin isGlobal steps x).map f := by
  induction steps generalizing x with
  | zero => rfl
  | succ steps ih =>
    rw [contextWithin, contextWithin, h.element_eq, h.parent_eq, Element.isPage_map,
      Option.isNone_map]
    split
    · rfl
    · cases t.parent x with
      | none => rfl
      | some above => exact ih above

/-- The page around a node is the page around it in the other tree. -/
theorem contextPage_eq (h : Renumbered f t u) (x : NodeId) (isGlobal : Bool) :
    u.contextPage (f x) isGlobal = (t.contextPage x isGlobal).map f := by
  rw [contextPage, h.size_eq, h.contextWithin_eq, contextPage]

theorem pagePath_eq (h : Renumbered f t u) (x : NodeId) : u.pagePath (f x) = t.pagePath x := by
  rw [pagePath, pagePath, h.element_eq]
  rcases t.element x with members | ⟨w, child⟩ | ⟨params, rows⟩ | l
  · rfl
  · cases w <;> rfl
  · rfl
  · rfl

theorem absolutePath_eq (h : Renumbered f t u) (path : Option String) (context : Option NodeId) :
    u.absolutePath path (context.map f) = t.absolutePath path context := by
  unfold Tree.absolutePath
  rw [Option.map_map]
  congr 2
  funext x
  exact h.pagePath_eq x

theorem rootDocument_eq (h : Renumbered f t u) : u.rootDocument = t.rootDocument := by
  unfold Tree.rootDocument
  rw [h.root_eq]
  cases t.root with
  | none => rfl
  | some root =>
    rw [Option.map_some, Option.bind_some, Option.bind_some, h.document?_eq]

end Renumbered

end Tree

end WikiHtml
