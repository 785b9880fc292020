-- A search with a stack finds what recursion finds. Whatever else is on the stack, a search that has
-- come to a node goes through all that is below it before it comes to the rest, and what it finds
-- there is what recursion finds. So the text below a node is made of its text leaves, in the order of
-- the document, and a copy has the same text.
import WikiHtml.Proofs.Tree.Copies
import WikiHtml.Proofs.Tree.Headings
import WikiHtml.Proofs.Tree.Links

namespace WikiHtml.Tree

section

variable {t t' : Tree} {o : Outline} {p : Element NodeId → Bool} {into : Bool}

/-! ## What is found -/

/-- What is found are the nodes below that match, but for those below a match if the search does not
go on there. -/
theorem mem_nodesMatching (hs : t.Spans o) (hn : o.ids.Nodup) {x : NodeId} :
    x ∈ t.nodesMatching o.id p into ↔ x ∈ o.ids ∧ p (t.element x) = true ∧
      (into = false → ∀ y ∈ o.ids, p (t.element y) = true → t.Reaches y x → y = x) := by
  cases into with
  | true => simp [nodesMatching_of_spans p hs hn]
  | false =>
    rw [nodesMatching, mem_matchesWithin hs hn (length_ids_le hs hn)]
    simp

/-! ## The stack -/

/-- The next node is the one that was pushed last. -/
theorem Traversal.run_push (found pending : Array NodeId) (id : NodeId) :
    run t p into ⟨found, pending.push id⟩ =
      run t p into
        (if p (t.element id) then
          ⟨found.push id, if into then pending ++ (t.element id).children.reverse else pending⟩
        else ⟨found, pending ++ (t.element id).children.reverse⟩) := by
  have hturn : turn t p into ⟨found, pending.push id⟩ =
      some (.inl (visit t p into ⟨found, pending.push id⟩ id)) := by rw [turn, Array.back?_push]
  rw [run, repeatM_eq_of_monadTail, repeatM.body, hturn]
  dsimp only [Option.bind_eq_bind, Option.bind_some, visit]
  rw [Array.pop_push]
  rfl

/-- Where no node is left, the search has its result. -/
theorem Traversal.run_done (found : Array NodeId) : run t p into ⟨found, #[]⟩ = some found := by
  rw [run, repeatM_eq_of_monadTail, repeatM.body, turn]
  rfl

/-- Nodes that were pushed last one first are gone through one after the other, if each of them is. -/
theorem Traversal.run_all {ids : List NodeId} {below : NodeId → List NodeId}
    (h : ∀ id ∈ ids, ∀ found pending, run t p into ⟨found, pending.push id⟩ =
      run t p into ⟨found ++ below id, pending⟩) (found pending : Array NodeId) :
    run t p into ⟨found, pending ++ ids.reverse⟩ =
      run t p into ⟨found ++ ids.flatMap below, pending⟩ := by
  induction ids generalizing found with
  | nil => simp
  | cons id rest ih =>
    have hpush : pending ++ (id :: rest).reverse = (pending ++ rest.reverse).push id :=
      Array.toList_inj.mp (by simp)
    have hfound : found ++ below id ++ rest.flatMap below =
        found ++ (below id ++ rest.flatMap below) := Array.toList_inj.mp (by simp)
    have hrest := ih (fun c hc => h c (List.mem_cons_of_mem id hc)) (found ++ below id)
    rw [hpush, h id List.mem_cons_self, hrest, List.flatMap_cons, hfound]

/-- A search that has come to a node finds below it what recursion finds, and then goes on with the
rest of the stack, whatever that is. -/
theorem Traversal.run_below {id : NodeId} {d : Document} (h : t.document? id = some d)
    (found pending : Array NodeId) :
    run t p into ⟨found, pending.push id⟩ =
      run t p into ⟨found ++ t.nodesMatching id p into, pending⟩ := by
  refine document?_induct (P := fun id _ => ∀ found pending : Array NodeId,
    run t p into ⟨found, pending.push id⟩ =
      run t p into ⟨found ++ t.nodesMatching id p into, pending⟩) ?_ h found pending
  intro id ds _ hdocument hheld found pending
  have hbelow : ∀ c ∈ (t.element id).children, ∀ found pending,
      run t p into ⟨found, pending.push c⟩ =
        run t p into ⟨found ++ t.nodesMatching c p into, pending⟩ := by
    intro c hc
    obtain ⟨_, _, _, hrun⟩ := Element.exists_of_forall₂ hheld hc
    exact hrun
  rw [run_push, nodesMatching_node p into hdocument]
  dsimp only
  split
  · cases into with
    | true =>
      rw [if_pos rfl, if_pos rfl, run_all hbelow]
      simp
    | false => simp
  · exact run_all hbelow found pending

theorem traverse?_eq {id : NodeId} {d : Document} (h : t.document? id = some d) :
    t.traverse? id p into = some (t.nodesMatching id p into) := by
  have hrun : Traversal.run t p into ⟨#[], #[id]⟩ =
      Traversal.run t p into ⟨#[] ++ t.nodesMatching id p into, #[]⟩ :=
    Traversal.run_below h #[] #[]
  rw [traverse?, hrun, Traversal.run_done]
  simp

/-! ## Text -/

/-- The text below a node is that of its document. -/
theorem stringContent_eq_textContent {id : NodeId} {d : Document} (h : t.document? id = some d) :
    t.stringContent id = d.textContent := by
  have hpick : ∀ (e : Element NodeId) (ds : List Document), e.Takes ds.length →
      Document.textOf? (e.refill ds) = textOf? e := by
    rintro (members | ⟨w, _ | child⟩ | ⟨params, rows⟩ | l) ds _
    · rfl
    · rfl
    · rfl
    · rfl
    · cases l <;> rfl
  rw [stringContent, traverse?_eq h, Option.getD_some, Document.textContent,
    all_of_document hpick h]

theorem stringContent_of_spans (hs : t.Spans o) (hn : o.ids.Nodup) :
    t.stringContent o.id = String.join (o.ids.filterMap fun x => textOf? (t.element x)) := by
  have htexts : ∀ x ∈ o.ids, (if (textOf? (t.element x)).isSome = true then
      textOf? (t.element x) else none) = textOf? (t.element x) := by
    intro x _
    cases textOf? (t.element x) <;> rfl
  rw [stringContent, traverse?_eq (document?_eq_along hs hn), Option.getD_some,
    nodesMatching_of_spans _ hs hn, List.filterMap_filter, List.filterMap_congr htexts]

/-- A document that is added has its own text. -/
theorem stringContent_addDocument (t : Tree) (d : Document) :
    (t.addDocument d).2.stringContent (t.addDocument d).1 = d.textContent := by
  obtain ⟨c, hid, hc⟩ := addDocument_planted t d
  have hs := hc.stands c (by simp)
  have hshown : (t.addDocument d).2.shown c.id = d := by simpa using hc.shown
  rw [← hid, stringContent_eq_textContent (document?_eq_shown hs.spans hs.nodup), hshown]

/-- The text below a node stays while the nodes there do. -/
theorem stringContent_of_changes (h : t.Changes t' []) (hs : t.Spans o) (hn : o.ids.Nodup) :
    t'.stringContent o.id = t.stringContent o.id := by
  have hsame : ∀ x ∈ o.ids, t'.element x = t.element x := fun x hx =>
    h.element_eq x (hs.lt_size x hx) List.not_mem_nil
  rw [stringContent_of_spans (hs.congr h.size_le hsame) hn, stringContent_of_spans hs hn]
  refine congrArg String.join (List.filterMap_congr fun x hx => ?_)
  rw [hsame x hx]

/-! ## Searching -/

/-- What a search has to find: of the nodes of an outline those that match, in their order and each of
them once, but none that stands below another match if the search does not go on there. -/
structure Finds (t : Tree) (o : Outline) (p : Element NodeId → Bool) (into : Bool)
    (found : List NodeId) : Prop where
  ordered : found.Sublist o.ids
  once : found.Nodup
  mem_iff : ∀ x, x ∈ found ↔ x ∈ o.ids ∧ p (t.element x) = true ∧
    (into = false → ∀ y ∈ o.ids, p (t.element y) = true → t.Reaches y x → y = x)

/-- A copy in a tree that grew has the text of the node that was copied, and all that was there has
the text that it had. -/
structure CopiesText (source : Tree) (id : NodeId) (t : Tree) (copy : NodeId × Tree) : Prop where
  same : copy.2.stringContent copy.1 = source.stringContent id
  kept : ∀ x, t.WellFormed x → copy.2.stringContent x = t.stringContent x

theorem finds_nodesMatching (hs : t.Spans o) (hn : o.ids.Nodup) :
    t.Finds o p into (t.nodesMatching o.id p into) := by
  have hsub := matchesWithin_sublist p into hs t.size
  exact ⟨hsub, hn.sublist hsub, fun _ => mem_nodesMatching hs hn⟩

theorem copiesText_addDocument (hs : t.Spans o) (hn : o.ids.Nodup) (t' : Tree) :
    CopiesText t o.id t' (t'.addDocument (t.along o)) where
  same := by
    rw [stringContent_addDocument, stringContent_eq_textContent (document?_eq_along hs hn)]
  kept := by
    rintro _ ⟨c, rfl, hc⟩
    exact stringContent_of_changes (changes_addDocument t' _) hc.spans hc.nodup

/-- Below a node that stands well a search with a stack ends, and finds what recursion finds that goes
through each node before those that it holds: the nodes that match, in the order of the document, and
the outermost of them if it does not go on below a match. So the text below the node is that of its
text leaves in their order, and copies have the same one. -/
theorem a_search_with_a_stack_finds_what_recursion_finds {id : NodeId} (h : t.WellFormed id) :
    ∃ o : Outline, o.id = id ∧ t.Stands [] o ∧
      (∀ p into, t.traverse? id p into = some (t.nodesMatching id p into) ∧
        t.Finds o p into (t.nodesMatching id p into)) ∧
      (∀ x ∈ o.ids, ∀ p into, t.nodesMatching x p into =
        let below := (t.element x).children.flatMap fun c => t.nodesMatching c p into
        if p (t.element x) then x :: (if into then below else []) else below) ∧
      t.stringContent id = String.join (o.ids.filterMap fun x => textOf? (t.element x)) ∧
      CopiesText t id t (t.deepClone id) ∧ ∀ t', CopiesText t id t' (t'.copyFrom t id) := by
  obtain ⟨o, rfl, ho⟩ := h
  obtain ⟨hs, hn⟩ : t.Spans o ∧ o.ids.Nodup := ⟨ho.spans, ho.nodup⟩
  refine ⟨o, rfl, ho, fun p into => ⟨traverse?_eq (document?_eq_along hs hn),
    finds_nodesMatching hs hn⟩,
    fun x hx p into => ?_, stringContent_of_spans hs hn, ?_, fun t' => ?_⟩
  · obtain ⟨held, hsx, hnx⟩ := hs.descend hn hx
    exact nodesMatching_node p into (document?_eq_along hsx hnx)
  · rw [deepClone_eq hs hn]
    exact copiesText_addDocument hs hn t
  · rw [copyFrom_eq hs hn]
    exact copiesText_addDocument hs hn t'

end

/-- A list, node 6, with a bold element that holds another one. -/
def boldInBold : Tree :=
  ⟨#[⟨.leaf (.text "a"), none, some 1⟩, ⟨.wrap .bold (some 0), none, some 3⟩,
    ⟨.leaf (.text "b"), none, some 3⟩, ⟨.list [1, 2], none, some 4⟩,
    ⟨.wrap .bold (some 3), none, some 6⟩, ⟨.leaf (.text "c"), none, some 6⟩,
    ⟨.list [4, 5], none, none⟩], some 6⟩

theorem wellFormed_boldInBold : boldInBold.WellFormed 6 := by
  refine ⟨.node 6 [.node 4 [.node 3 [.node 1 [.node 0 []], .node 2 []]], .node 5 []], rfl, ?_, ?_, ?_⟩
  · have hleaf : ∀ id < boldInBold.size, (boldInBold.element id).children = [] →
        boldInBold.Spans (.node id []) := fun id hid hnone => .node hid hnone (by simp)
    have hinner : boldInBold.Spans (.node 1 [.node 0 []]) :=
      .node (by decide) rfl (by simpa using hleaf 0 (by decide) rfl)
    have hlist : boldInBold.Spans (.node 3 [.node 1 [.node 0 []], .node 2 []]) :=
      .node (by decide) rfl (by simpa using ⟨hinner, hleaf 2 (by decide) rfl⟩)
    have houter : boldInBold.Spans (.node 4 [.node 3 [.node 1 [.node 0 []], .node 2 []]]) :=
      .node (by decide) rfl (by simpa using hlist)
    exact .node (by decide) rfl (by simpa using ⟨houter, hleaf 5 (by decide) rfl⟩)
  · simp [Outline.ids_node]
  · simp [Outline.edges_node, boldInBold, Tree.parent]

theorem a_bold_element_in_another_one_is_found_or_passed :
    boldInBold.WellFormed 6 ∧
      boldInBold.traverse? 6 (·.isWrap (· == .bold)) true = some [4, 1] ∧
      boldInBold.traverse? 6 (·.isWrap (· == .bold)) false = some [4] ∧
      boldInBold.stringContent 6 = "abc" := by
  obtain ⟨o, -, -, hfound, -⟩ :=
    a_search_with_a_stack_finds_what_recursion_finds wellFormed_boldInBold
  refine ⟨wellFormed_boldInBold, ?_, ?_, ?_⟩
  · rw [(hfound _ _).1]
    decide
  · rw [(hfound _ _).1]
    decide
  · rw [stringContent, (hfound _ _).1]
    decide

end WikiHtml.Tree
