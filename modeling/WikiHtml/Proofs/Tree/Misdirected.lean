-- Changes that name a node of the wrong kind. A change asks for the kind of its node before it moves
-- anything, and then leaves the tree as it is. Only the members that are to be moved to a node that
-- is no list have left their own list by then: that list is empty, and still their parent.
import WikiHtml.Proofs.Document.Parts
import WikiHtml.Proofs.Tree.Nodes
import WikiHtml.Tree.Edit

namespace WikiHtml

/-! ## Kinds -/

namespace Element

variable {α : Type} {e : Element α}

theorem ne_list (h : e.isList = false) (members : List α) : e ≠ .list members := by
  rintro rfl
  cases h

theorem ne_wrap (h : e.isWrapper = false) (w : Wrapper) (child : Option α) :
    e ≠ .wrap w child := by
  rintro rfl
  cases h

theorem ne_table (h : e.isTable = false) (params : Option String) (rows : List (Row α)) :
    e ≠ .table params rows := by
  rintro rfl
  cases h

theorem eq_list (h : e.isList = true) : e = .list e.members := by
  cases e with
  | list members => rfl
  | _ => cases h

theorem members_of_not_list (h : e.isList = false) : e.members = [] := by
  cases e with
  | list members => cases h
  | _ => rfl

end Element

namespace Tree

/-- There is a node with the number, but it is of another kind. -/
def IsOther (t : Tree) (kind : Element NodeId → Bool) (id : NodeId) : Prop :=
  id < t.size ∧ kind (t.element id) = false

/-- A change names nodes that are there, but one of them is not of the kind that it changes. -/
def Edit.Misdirected (t : Tree) : Edit → Prop
  | .setChild id _ => t.IsOther Element.isWrapper id
  | .listSet list _ _ | .listRemove list _ | .listPush list _ => t.IsOther Element.isList list
  | .listAppend list other => list < t.size ∧ other < t.size ∧
      (t.IsOther Element.isList list ∨ t.IsOther Element.isList other)
  | .setCellContent table _ _ _ => t.IsOther Element.isTable table
  | .add _ _ | .addDocument _ | .deepClone _ | .setRoot _ => False

/-- What a change answers that is not made. -/
def Edit.refusal : Edit → Reply
  | .setChild _ _ => .accepted false
  | .listRemove _ _ => .node none
  | _ => .done

/-- The list that a change takes the members from with no list to put them into. -/
def Edit.emptied? (t : Tree) : Edit → Option NodeId
  | .listAppend list other =>
    if (t.element list).isList || (t.members other).isEmpty then none else some other
  | _ => none

/-- The second tree is the first one with the members of a list gone, which still name it as their
parent. -/
structure Emptied (t t' : Tree) (list : NodeId) : Prop where
  size : t'.size = t.size
  root : t'.root = t.root
  lost : t.members list ≠ []
  element : ∀ x, t'.element x = if x = list then .list [] else t.element x
  span : ∀ x, t'.span x = t.span x
  parent : ∀ x, t'.parent x = t.parent x

section

variable {t : Tree} {id list other table : NodeId}

/-! ## Changes at one node -/

theorem setChild_of_not_wrapper (h : (t.element id).isWrapper = false) (child : Option NodeId) :
    t.setChild id child = t := by
  unfold setChild
  split
  · exact absurd ‹_› (Element.ne_wrap h _ _)
  · rfl

theorem listSet_of_not_list (h : (t.element list).isList = false) (index : Nat) (node : NodeId) :
    t.listSet list index node = t := by
  unfold listSet
  split
  · exact absurd ‹_› (Element.ne_list h _)
  · rfl

theorem listRemove_of_not_list (h : (t.element list).isList = false) (index : Nat) :
    t.listRemove list index = (none, t) := by
  unfold listRemove
  split
  · exact absurd ‹_› (Element.ne_list h _)
  · rfl

theorem listPush_of_not_list (h : (t.element list).isList = false) (node : NodeId) :
    t.listPush list node = t := by
  unfold listPush
  split
  · exact absurd ‹_› (Element.ne_list h _)
  · rfl

theorem setCellContent_of_not_table (h : (t.element table).isTable = false) (row cell : Nat)
    (content : Option NodeId) : t.setCellContent table row cell content = t := by
  unfold setCellContent
  split
  · exact absurd ‹_› (Element.ne_table h _ _)
  · rfl

/-! ## Moving members -/

theorem listAppend_of_not_list (h : (t.element other).isList = false) (list : NodeId) :
    t.listAppend list other = t := by
  unfold listAppend
  split
  · exact absurd ‹_› (Element.ne_list h _)
  · rfl

theorem foldl_listPush_of_not_list (h : (t.element list).isList = false) (nodes : List NodeId) :
    nodes.foldl (fun t node => t.listPush list node) t = t := by
  induction nodes with
  | nil => rfl
  | cons node rest ih => rw [List.foldl_cons, listPush_of_not_list h, ih]

/-- The members of a list that are to go to a node that is no list go nowhere. -/
theorem listAppend_to_other (h : (t.element list).isList = false) (hother : other < t.size)
    (hlist : (t.element other).isList = true) :
    t.listAppend list other = t.setElement other (.list []) := by
  have hne : list ≠ other := by
    rintro rfl
    rw [h] at hlist
    cases hlist
  have hkept : ((t.setElement other (.list [])).element list).isList = false := by
    rw [element_setElement _ _ _ hother, if_neg hne]
    exact h
  unfold listAppend
  rw [Element.eq_list hlist]
  exact foldl_listPush_of_not_list hkept _

theorem emptied_setElement (h : list < t.size) (hlost : t.members list ≠ []) :
    t.Emptied (t.setElement list (.list [])) list where
  size := size_setElement t list _
  root := rfl
  lost := hlost
  element x := element_setElement t _ x h
  span x := span_setElement t list _ x
  parent x := parent_setElement t list _ x

/-- Where a list is to go to a node that is no list, or the other way round, it loses its members or
nothing happens. -/
theorem listAppend_misdirected (hother : other < t.size)
    (h : (t.element list).isList = false ∨ (t.element other).isList = false) :
    ((Edit.listAppend list other).emptied? t = none → t.listAppend list other = t) ∧
      ∀ x, (Edit.listAppend list other).emptied? t = some x →
        t.Emptied (t.listAppend list other) x := by
  by_cases hkind : (t.element other).isList = true
  · have hlist : (t.element list).isList = false := h.resolve_right (by simp [hkind])
    rw [listAppend_to_other hlist hother hkind, Edit.emptied?, hlist, Bool.false_or]
    by_cases hmembers : t.members other = []
    · have hempty : t.element other = .list [] :=
        (Element.eq_list hkind).trans (congrArg Element.list hmembers)
      rw [hmembers]
      exact ⟨fun _ => setElement_self hempty, nofun⟩
    · rw [if_neg (by simpa using hmembers)]
      refine ⟨nofun, fun x hx => ?_⟩
      obtain rfl : other = x := Option.some.inj hx
      exact emptied_setElement hother hmembers
  · have hnone : (t.element other).isList = false := eq_false_of_ne_true hkind
    have hempty : t.members other = [] := Element.members_of_not_list hnone
    rw [listAppend_of_not_list hnone, Edit.emptied?, hempty, List.isEmpty_nil, Bool.or_true]
    exact ⟨fun _ => rfl, nofun⟩

/-! ## All changes -/

namespace Edit

variable {e : Edit}

/-- What a change looks at before it asks for the kind of its node is there. -/
theorem Misdirected.inRange (h : e.Misdirected t) : e.inRange t = true := by
  cases e with
  | setChild id child =>
    obtain ⟨hid, hkind⟩ := h
    simp [Edit.inRange, contains, hid, hkind]
  | listSet list index node =>
    obtain ⟨hlist, hkind⟩ := h
    simp [Edit.inRange, contains, hlist, hkind]
  | listRemove list index =>
    obtain ⟨hlist, hkind⟩ := h
    simp [Edit.inRange, contains, hlist, hkind]
  | listPush list node =>
    obtain ⟨hlist, hkind⟩ := h
    simp [Edit.inRange, contains, hlist, hkind]
  | listAppend list other =>
    obtain ⟨hlist, hother, -⟩ := h
    simp [Edit.inRange, contains, hlist, hother]
  | setCellContent table row cell content =>
    obtain ⟨htable, hkind⟩ := h
    simp only [Edit.inRange, contains, htable, decide_true, Bool.true_and]
    split
    · exact absurd ‹_› (Element.ne_table hkind _ _)
    · rfl
  | _ => exact h.elim

/-- A change that is not made says so, and leaves the tree as it is unless it empties a list. -/
theorem Misdirected.run (h : e.Misdirected t) :
    (e.run t).1 = e.refusal ∧ (e.emptied? t = none → (e.run t).2 = t) ∧
      ∀ x, e.emptied? t = some x → t.Emptied (e.run t).2 x := by
  cases e with
  | setChild id child =>
    exact ⟨congrArg Reply.accepted h.2, fun _ => setChild_of_not_wrapper h.2 child, nofun⟩
  | listSet list index node => exact ⟨rfl, fun _ => listSet_of_not_list h.2 index node, nofun⟩
  | listRemove list index =>
    have hnone := listRemove_of_not_list h.2 index
    exact ⟨congrArg (Reply.node ∘ Prod.fst) hnone, fun _ => congrArg Prod.snd hnone, nofun⟩
  | listPush list node => exact ⟨rfl, fun _ => listPush_of_not_list h.2 node, nofun⟩
  | listAppend list other =>
    obtain ⟨-, hother, hkind⟩ := h
    exact ⟨rfl, listAppend_misdirected hother (hkind.imp And.right And.right)⟩
  | setCellContent table row cell content =>
    exact ⟨rfl, fun _ => setCellContent_of_not_table h.2 row cell content, nofun⟩
  | _ => exact h.elim

end Edit

/-- A change that names a node of the wrong kind can be made, but leaves every node and the root as
they are, and says so where it answers. There is one exception: when the members of a list are to
move to a node that is no list, they are taken out of their list, and all else stays as it is. -/
theorem misdirected_changes_do_nothing_unless_they_empty_a_list {e : Edit} (h : e.Misdirected t) :
    (e.emptied? t = none → t.edit? e = some (e.refusal, t)) ∧
      ∀ list, e.emptied? t = some list →
        ∃ t', t.edit? e = some (e.refusal, t') ∧ t.Emptied t' list := by
  obtain ⟨hreply, hsame, hemptied⟩ := h.run
  have hmade : t.edit? e = some (e.refusal, (e.run t).2) := by
    rw [Tree.edit?, if_pos h.inRange, ← hreply]
  refine ⟨fun hnone => ?_, fun list hlist => ⟨_, hmade, hemptied list hlist⟩⟩
  rw [hmade, hsame hnone]

end

/-- Two words, the first of them in a list, node 2. -/
def wordInList : Tree :=
  ⟨#[⟨.leaf (.text "a"), none, some 2⟩, ⟨.leaf (.text "b"), none, none⟩, ⟨.list [0], none, none⟩],
    none⟩

/-- A word cannot hold a word. -/
theorem a_word_that_goes_into_a_word_goes_nowhere :
    (Edit.listPush 1 0).Misdirected wordInList ∧
      wordInList.edit? (.listPush 1 0) = some (.done, wordInList) := by
  have hother : (Edit.listPush 1 0).Misdirected wordInList := ⟨by decide, rfl⟩
  exact ⟨hother, (misdirected_changes_do_nothing_unless_they_empty_a_list hother).1 rfl⟩

/-- The members of a list that are to go into a word leave their list. -/
theorem a_list_that_goes_into_a_word_is_empty :
    (Edit.listAppend 1 2).Misdirected wordInList ∧
      ∃ t', wordInList.edit? (.listAppend 1 2) = some (.done, t') ∧
        wordInList.members 2 = [0] ∧ t'.members 2 = [] ∧ t'.parent 0 = some 2 :=
  ⟨⟨by decide, by decide, .inl ⟨by decide, rfl⟩⟩, _, rfl, rfl, rfl, rfl⟩

end Tree

end WikiHtml
