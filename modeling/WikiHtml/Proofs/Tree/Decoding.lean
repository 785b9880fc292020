-- Documents that were read, put into a tree. Spans are looked at on the way down and nodes are added on
-- the way up; together this comes to looking at all spans first, in the order of the document, and then
-- adding the document with its levels counted from 1.
import WikiHtml.Proofs.Document.Parts
import WikiHtml.Proofs.Tree.Copies
import WikiHtml.Tree.Decode

namespace WikiHtml

/-! ## Levels from 1 -/

namespace Element

variable {α β : Type}

/-- The element with level 1 where it has level 0. -/
def raised : Element α → Element α
  | .wrap wrapper child => .wrap wrapper.raised child
  | e => e

@[simp] theorem children_raised (e : Element α) : e.raised.children = e.children := by
  cases e <;> rfl

end Element

namespace Document

/-- The document with level 1 wherever it has level 0. -/
def raised : Document → Document
  | .node e span => .node (e.raised.refill (e.children.attach.map fun d => raised d.1)) span
termination_by d => sizeOf d
decreasing_by
  have := sizeOf_lt_of_mem_children d.2
  simp only [Document.node.sizeOf_spec]
  omega

theorem raised_node (e : Element Document) (span : Option Span) :
    raised (.node e span) = .node (e.raised.refill (e.children.map raised)) span := by
  rw [raised, List.attach_map_val]

theorem takes_raised (e : Element Document) : e.raised.Takes (e.children.map raised).length :=
  Or.inr (by rw [List.length_map, Element.children_raised])

theorem spans_node (e : Element Document) (s : Option Span) :
    spans (.node e s) = s.toList ++ e.children.flatMap spans := by
  have hheld : (e.children.flatMap parts).filterMap span = e.children.flatMap spans :=
    List.filterMap_flatMap
  rcases s with _ | s <;> rw [spans, parts_node, List.filterMap_cons, hheld] <;> rfl

end Document

namespace Tree

/-! ## Adding with a check -/

/-- A value that is only there if no span ends before it starts; the first that does is at fault. -/
def unlessBackward {α : Type} (spans : List Span) (value : α) : Except DecodeError α :=
  match spans.find? Span.isBackward with
  | some bad => .error (.span bad)
  | none => .ok value

theorem unlessBackward_bind {α β : Type} (spans : List Span) (value : α)
    (next : α → Except DecodeError β) :
    unlessBackward spans value >>= next = unlessBackward spans () >>= fun _ => next value := by
  unfold unlessBackward
  rcases spans.find? Span.isBackward with _ | bad <;> rfl

theorem unlessBackward_map {α β : Type} (spans : List Span) (value : α) (f : α → β) :
    f <$> unlessBackward spans value = unlessBackward spans (f value) := by
  unfold unlessBackward
  rcases spans.find? Span.isBackward with _ | bad <;> rfl

theorem unlessBackward_append {α : Type} (before after : List Span) (value : α) :
    unlessBackward (before ++ after) value =
      unlessBackward before () >>= fun _ => unlessBackward after value := by
  unfold unlessBackward
  rw [List.find?_append]
  rcases before.find? Span.isBackward with _ | bad <;> rfl

/-- Adding a document that was read, as a step that changes the tree. -/
abbrev buildStep (d : Document) : StateT Tree (Except DecodeError) NodeId :=
  fun t => t.build d

theorem buildMembers_eq (t : Tree) (ds : List Document) :
    t.buildMembers ds = (ds.mapM buildStep).run t := by
  induction ds generalizing t with
  | nil => rfl
  | cons d rest ih =>
    rw [buildMembers, List.mapM_cons]
    simp only [ih, StateT.run_bind, StateT.run_pure]
    rfl

theorem buildChild_eq (t : Tree) (child : Option Document) :
    t.buildChild child = (child.mapM buildStep).run t := by
  rcases child with _ | d <;> rfl

theorem buildCells_eq (t : Tree) (cells : List (Cell Document)) :
    t.buildCells cells = (cells.mapM (Element.mapCellM buildStep)).run t := by
  induction cells generalizing t with
  | nil => rfl
  | cons cell rest ih =>
    rw [buildCells, List.mapM_cons]
    simp only [ih, buildChild_eq, Element.mapCellM, StateT.run_bind, StateT.run_pure, bind_assoc,
      pure_bind]

theorem buildRows_eq (t : Tree) (rows : List (Row Document)) :
    t.buildRows rows = (rows.mapM (Element.mapRowM buildStep)).run t := by
  induction rows generalizing t with
  | nil => rfl
  | cons row rest ih =>
    rw [buildRows, List.mapM_cons]
    simp only [ih, buildCells_eq, Element.mapRowM, StateT.run_bind, StateT.run_pure, bind_assoc,
      pure_bind]

/-- What an element holds is added in the order of the document, whatever the element is. -/
theorem buildHeld_eq (t : Tree) (e : Element Document) :
    t.buildHeld e = (e.raised.refill <$> e.children.mapM buildStep).run t := by
  have hmap : t.buildHeld e = (e.raised.mapM buildStep).run t := by
    cases e with
    | list members => rw [buildHeld, buildMembers_eq]; rfl
    | wrap w child => rw [buildHeld, buildChild_eq]; rfl
    | table params rows => rw [buildHeld, buildRows_eq]; rfl
    | leaf l => rfl
  rw [hmap, Element.mapM_eq, Element.children_raised]

theorem mapM_buildStep {ds : List Document}
    (h : ∀ d ∈ ds, ∀ t : Tree, t.build d = unlessBackward d.spans (t.addDocument d.raised))
    (t : Tree) : (ds.mapM buildStep).run t =
      unlessBackward (ds.flatMap Document.spans) (t.addMembers (ds.map Document.raised)) := by
  induction ds generalizing t with
  | nil => rfl
  | cons d rest ih =>
    have hfirst : (buildStep d).run t = unlessBackward d.spans (t.addDocument d.raised) :=
      h d (by simp) t
    rw [List.mapM_cons, StateT.run_bind, hfirst, List.flatMap_cons, unlessBackward_append,
      unlessBackward_bind]
    simp only [bind_pure_comp, StateT.run_map, ih fun d hd => h d (List.mem_cons_of_mem _ hd),
      unlessBackward_map, List.map_cons, addMembers]

/-- Looking at the spans on the way is the same as looking at all of them first. -/
theorem build_eq (d : Document) (t : Tree) :
    t.build d = unlessBackward d.spans (t.addDocument d.raised) := by
  induction d using Document.induct generalizing t with
  | node e span ih =>
    have hl := Document.takes_raised e
    rw [build, buildHeld_eq, StateT.run_map, mapM_buildStep ih, Document.spans_node,
      Document.raised_node, addDocument_eq, Element.children_refill _ _ hl,
      Element.refill_refill _ _ _ hl, unlessBackward_append, unlessBackward_map]
    simp only [bind_pure_comp, unlessBackward_map]
    rcases span with _ | s
    · rfl
    · rcases hs : s.isBackward with _ | _ <;>
        simp only [Option.filter, hs, unlessBackward, Option.toList_some, List.find?_cons] <;> rfl

theorem ofDocument?_eq (d : Document) :
    ofDocument? d = unlessBackward d.spans (ofDocument d.raised) := by
  rw [ofDocument?, build_eq]
  exact unlessBackward_map _ _ _

/-! ## What is built -/

/-- A tree that holds a document, with levels from 1, and nothing else: one node for each element, with
the numbers counted up behind all that an element holds, and the last one at the top. -/
structure Holds (t : Tree) (d : Document) (o : Outline) : Prop where
  same : t.document? o.id = some d.raised
  root_eq : t.root = some o.id
  loose : t.parent o.id = none
  stands : t.Stands [] o
  size_eq : t.size = d.parts.length
  numbered : o.postorder = List.range d.parts.length
  last : o.id + 1 = d.parts.length
  holder : ∀ p, ∀ x ∈ (t.element p).children, t.parent x = some p

theorem length_parts_raised (d : Document) : d.raised.parts.length = d.parts.length := by
  induction d using Document.induct with
  | node e span ih =>
    have hheld : e.children.map (fun d => d.raised.parts.length) =
        e.children.map fun d => d.parts.length := List.map_congr_left ih
    rw [Document.raised_node, Document.parts_node, Document.parts_node,
      Element.children_refill _ _ (Document.takes_raised e), List.length_cons, List.length_cons,
      List.flatMap_map, List.length_flatMap, List.length_flatMap, hheld]

/-- A document that was added to the empty tree and then put at the top. -/
theorem Planted.holds {t : Tree} {d : Document} {o : Outline}
    (h : empty.Planted t [o] [d.raised]) (hlast : o.id + 1 = t.size) :
    (t.setRoot o.id).Holds d o := by
  have hs := h.stands o (by simp)
  have hroot := hs.setRoot
  have hshown : t.along o = d.raised := by
    rw [← shown_eq_along hs.spans hs.nodup]
    exact List.singleton_inj.mp h.shown
  have hnumbered : o.postorder = List.range t.size := by
    rw [List.range_eq_range', ← List.flatMap_singleton Outline.postorder, h.numbered]
    rfl
  have hsize : t.size = d.parts.length := by
    rw [← length_parts_raised, ← hshown, length_parts_along hs.spans,
      ← o.postorder_perm.length_eq, hnumbered, List.length_range]
  refine ⟨?_, root_setRoot .., ?_, hroot, by rw [size_setRoot, hsize], hsize ▸ hnumbered,
    hsize ▸ hlast, fun p x hx => ?_⟩
  · have hsame : (t.setRoot o.id).along o = t.along o := along_congr (by simp) (by simp)
    rw [document?_eq_along hroot.spans hroot.nodup, hsame, hshown]
  · rw [parent_setRoot _ _ hs.spans.inside, if_pos rfl]
  · have hp : p ∈ o.ids := by
      rw [← o.postorder_perm.mem_iff, hnumbered, List.mem_range]
      by_contra hlt
      rw [element_setRoot, element_of_size_le (Nat.not_lt.mp hlt)] at hx
      cases hx
    exact hroot.linked _ (hroot.spans.edge_iff.mpr ⟨hp, hx⟩)

theorem holds_ofDocument (d : Document) : ∃ o, (ofDocument d.raised).Holds d o := by
  obtain ⟨o, hid, ho⟩ := addDocument_planted empty d.raised
  have hset : ofDocument d.raised = (empty.addDocument d.raised).2.setRoot o.id := by
    rw [hid]
    rfl
  exact ⟨o, hset ▸ ho.holds (hid ▸ addDocument_last empty d.raised)⟩

theorem holds_of_ofDocument? {d : Document} {t : Tree} (h : ofDocument? d = .ok t) :
    ∃ o, t.Holds d o := by
  rw [ofDocument?_eq] at h
  unfold unlessBackward at h
  split at h
  · cases h
  · exact Except.ok.inj h ▸ holds_ofDocument d

/-- A document becomes a tree exactly if no span in it ends before it starts. If one does, the first
such span is reported, in the order of the document; else the tree holds the document. -/
theorem documents_that_were_read_are_built (d : Document) :
    ((∃ fault, ofDocument? d = .error fault) ↔ ∃ s ∈ d.spans, s.last < s.first) ∧
      ((∃ before bad after, ofDocument? d = .error (.span bad) ∧
          d.spans = before ++ bad :: after ∧ bad.last < bad.first ∧
          ∀ s ∈ before, s.first ≤ s.last) ∨
        ∃ t o, ofDocument? d = .ok t ∧ t.Holds d o) := by
  have hok : ∀ s : Span, s.isBackward = false ↔ s.first ≤ s.last := fun s => by
    rw [Span.isBackward, decide_eq_false_iff_not, Nat.not_lt]
  rcases hfind : d.spans.find? Span.isBackward with _ | bad
  · have hbuilt : ofDocument? d = .ok (ofDocument d.raised) := by
      rw [ofDocument?_eq, unlessBackward, hfind]
    have hall : ∀ s ∈ d.spans, s.first ≤ s.last := fun s hs =>
      (hok s).mp (by simpa using List.find?_eq_none.mp hfind s hs)
    obtain ⟨o, ho⟩ := holds_ofDocument d
    refine ⟨⟨fun ⟨fault, h⟩ => ?_, fun ⟨s, hs, hlt⟩ => ?_⟩, Or.inr ⟨_, o, hbuilt, ho⟩⟩
    · rw [hbuilt] at h
      cases h
    · exact absurd hlt (Nat.not_lt.mpr (hall s hs))
  · have hfault : ofDocument? d = .error (.span bad) := by
      rw [ofDocument?_eq, unlessBackward, hfind]
    obtain ⟨hbad, before, after, hsplit, hbefore⟩ := List.find?_eq_some_iff_append.mp hfind
    have hlt : bad.last < bad.first := of_decide_eq_true hbad
    refine ⟨iff_of_true ⟨_, hfault⟩ ⟨bad, by simp [hsplit], hlt⟩,
      Or.inl ⟨before, bad, after, hfault, hsplit, hlt, fun s hs => ?_⟩⟩
    exact (hok s).mp (by simpa using hbefore s hs)

example : ofDocument? (.node (.table none [⟨none, [⟨false, none, none⟩,
      ⟨false, none, some (.node (.list [.node (.leaf .lineBreak) (some ⟨5, 4⟩)]) (some ⟨2, 2⟩))⟩,
      ⟨true, none, some (.node (.leaf .lineBreak) (some ⟨9, 0⟩))⟩]⟩]) none) =
    .error (.span ⟨5, 4⟩) := by
  rfl

end Tree

end WikiHtml
