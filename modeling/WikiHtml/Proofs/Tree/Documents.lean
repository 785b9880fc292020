-- Reading below a node that has a document. The bound within which the document is found is one to go
-- down by, whether or not a node is held twice on the way; and a tree that grows has the documents
-- that it had.
import Mathlib.Data.List.Flatten
import WikiHtml.Proofs.Document.Parts
import WikiHtml.Proofs.Tree.Shown

namespace WikiHtml

theorem Element.forall₂_of_mapM {α β : Type} {f : α → Option β} {xs : List α} {ys : List β}
    (h : xs.mapM f = some ys) : List.Forall₂ (fun x y => f x = some y) xs ys := by
  induction xs generalizing ys with
  | nil =>
    simp only [List.mapM_nil, Option.pure_def, Option.some.injEq] at h
    exact h ▸ .nil
  | cons x rest ih =>
    simp only [List.mapM_cons, Option.bind_eq_bind, Option.pure_def, Option.bind_eq_some_iff,
      Option.some.injEq] at h
    obtain ⟨y, hy, ys', hrest, rfl⟩ := h
    exact .cons hy (ih hrest)

theorem Element.mapM_of_forall₂ {α β : Type} {f : α → Option β} {xs : List α} {ys : List β}
    (h : List.Forall₂ (fun x y => f x = some y) xs ys) : xs.mapM f = some ys := by
  induction h with
  | nil => rfl
  | cons hx _ ih =>
    rw [List.mapM_cons, hx, ih]
    rfl

theorem Element.exists_of_forall₂ {α β : Type} {R : α → β → Prop} {xs : List α} {ys : List β}
    (h : List.Forall₂ R xs ys) {x : α} (hx : x ∈ xs) : ∃ y ∈ ys, R x y := by
  induction h with
  | nil => cases hx
  | @cons a b _ ys hab _ ih =>
    rcases List.mem_cons.mp hx with rfl | hx
    · exact ⟨b, List.mem_cons_self, hab⟩
    · obtain ⟨y, hy, hxy⟩ := ih hx
      exact ⟨y, List.mem_cons_of_mem b hy, hxy⟩

theorem Element.flatMap_of_forall₂ {α β γ : Type} {f : α → List γ} {g : β → List γ} {xs : List α}
    {ys : List β} (h : List.Forall₂ (fun x y => f x = g y) xs ys) : xs.flatMap f = ys.flatMap g := by
  induction h with
  | nil => rfl
  | cons hxy _ ih => rw [List.flatMap_cons, List.flatMap_cons, hxy, ih]

namespace Tree

section

variable {t t' : Tree} {id : NodeId} {d : Document}

/-- What holds of a node and its document if it holds of the nodes below and theirs holds of every node
that has a document within the bound. -/
theorem documentWithin_induct {P : Nat → NodeId → Document → Prop}
    (node : ∀ bound id ds, id < t.size →
      t.documentWithin (bound + 1) id = some (.node ((t.element id).refill ds) (t.span id)) →
      List.Forall₂ (fun c d => t.documentWithin bound c = some d ∧ P bound c d)
        (t.element id).children ds →
      P (bound + 1) id (.node ((t.element id).refill ds) (t.span id)))
    {bound : Nat} (h : t.documentWithin bound id = some d) : P bound id d := by
  induction bound generalizing id d with
  | zero => cases h
  | succ bound ih =>
    rcases Nat.lt_or_ge id t.size with hid | hid
    · have hdocument := h
      rw [documentWithin_succ t bound hid] at h
      obtain ⟨ds, hds, rfl⟩ := Option.map_eq_some_iff.mp h
      refine node bound id ds hid hdocument ?_
      exact (Element.forall₂_of_mapM hds).imp fun c d hd => ⟨hd, ih hd⟩
    · rw [documentWithin, Array.getElem?_eq_none hid] at h
      cases h

/-- The bound may be greater, and nodes may have been added. -/
theorem documentWithin_later (hc : t.Changes t' []) {bound more : Nat} (hm : bound ≤ more)
    (h : t.documentWithin bound id = some d) : t'.documentWithin more id = some d := by
  refine documentWithin_induct (P := fun bound id d => ∀ more, bound ≤ more →
    t'.documentWithin more id = some d) ?_ h more hm
  intro bound id ds hid _ hheld more hm
  obtain ⟨more, rfl⟩ : ∃ n, more = n + 1 := ⟨more - 1, by omega⟩
  have hds : (t.element id).children.mapM (t'.documentWithin more) = some ds :=
    Element.mapM_of_forall₂ (hheld.imp fun c d hd => hd.2 more (by omega))
  rw [documentWithin_succ t' more (Nat.lt_of_lt_of_le hid hc.size_le),
    hc.element_eq id hid List.not_mem_nil, hc.span_eq id hid, hds]
  rfl

theorem document?_later (hc : t.Changes t' []) (h : t.document? id = some d) :
    t'.document? id = some d :=
  documentWithin_later hc hc.size_le h

/-- The same without the bound. -/
theorem document?_induct {P : NodeId → Document → Prop}
    (node : ∀ id ds, id < t.size →
      t.document? id = some (.node ((t.element id).refill ds) (t.span id)) →
      List.Forall₂ (fun c d => t.document? c = some d ∧ P c d) (t.element id).children ds →
      P id (.node ((t.element id).refill ds) (t.span id)))
    (h : t.document? id = some d) : P id d := by
  refine documentWithin_induct (P := fun bound id d => bound ≤ t.size → P id d) ?_ h (Nat.le_refl _)
  intro bound id ds hid hdocument hheld hb
  refine node id ds hid (documentWithin_later (.refl t []) hb hdocument)
    (hheld.imp fun c d hd => ⟨?_, hd.2 (by omega)⟩)
  exact documentWithin_later (.refl t []) (by omega) hd.1

/-- The document of a node is put together from those of the nodes that it holds. -/
theorem document?_node (h : t.document? id = some d) : id < t.size ∧
    ∃ ds, List.Forall₂ (fun c d => t.document? c = some d) (t.element id).children ds ∧
      d = .node ((t.element id).refill ds) (t.span id) :=
  document?_induct (P := fun id d => id < t.size ∧
    ∃ ds, List.Forall₂ (fun c d => t.document? c = some d) (t.element id).children ds ∧
      d = .node ((t.element id).refill ds) (t.span id))
    (fun _ ds hid _ hheld => ⟨hid, ds, hheld.imp fun _ _ hd => hd.1, rfl⟩) h

/-! ## Nodes that match -/

/-- It does not count by how much the depth of a search is more than the bound. -/
theorem matchesWithin_enough (p : Element NodeId → Bool) (into : Bool) {bound depth more : Nat}
    (h : t.documentWithin bound id = some d) (hd : bound ≤ depth) (hm : bound ≤ more) :
    t.matchesWithin p into depth id = t.matchesWithin p into more id := by
  refine documentWithin_induct (P := fun bound id _ => ∀ depth more, bound ≤ depth → bound ≤ more →
    t.matchesWithin p into depth id = t.matchesWithin p into more id) ?_ h depth more hd hm
  intro bound id ds _ _ hheld depth more hd hm
  obtain ⟨depth, rfl⟩ : ∃ n, depth = n + 1 := ⟨depth - 1, by omega⟩
  obtain ⟨more, rfl⟩ : ∃ n, more = n + 1 := ⟨more - 1, by omega⟩
  have hbelow : (t.element id).children.flatMap (t.matchesWithin p into depth) =
      (t.element id).children.flatMap (t.matchesWithin p into more) := by
    refine List.flatMap_congr fun c hc => ?_
    obtain ⟨_, _, _, hsame⟩ := Element.exists_of_forall₂ hheld hc
    exact hsame depth more (by omega) (by omega)
  rw [matchesWithin, matchesWithin, hbelow]

/-- The recursion without its bound: a node that matches comes before those below it, and these are
left out if the search does not go on below a match. -/
theorem nodesMatching_node (p : Element NodeId → Bool) (into : Bool) (h : t.document? id = some d) :
    t.nodesMatching id p into =
      let below := (t.element id).children.flatMap fun c => t.nodesMatching c p into
      if p (t.element id) then id :: (if into then below else []) else below := by
  obtain ⟨hid, _⟩ := document?_node h
  obtain ⟨depth, hdepth⟩ := Nat.exists_eq_succ_of_ne_zero (Nat.ne_zero_of_lt hid)
  rw [document?, hdepth, documentWithin_succ t depth hid] at h
  obtain ⟨ds, hds, _⟩ := Option.map_eq_some_iff.mp h
  have hbelow : (t.element id).children.flatMap (t.matchesWithin p into depth) =
      (t.element id).children.flatMap fun c => t.nodesMatching c p into := by
    refine List.flatMap_congr fun c hc => ?_
    obtain ⟨_, _, hdocument⟩ := Element.exists_of_forall₂ (Element.forall₂_of_mapM hds) hc
    show t.matchesWithin p into depth c = t.matchesWithin p into t.size c
    exact matchesWithin_enough p into hdocument (Nat.le_refl _) (by omega)
  rw [nodesMatching, hdepth, matchesWithin, hbelow]

theorem exists_document_of_mem {p : Element NodeId → Bool} {into : Bool} (h : t.document? id = some d)
    {x : NodeId} (hx : x ∈ t.nodesMatching id p into) :
    p (t.element x) = true ∧ ∃ d, t.document? x = some d := by
  refine document?_induct (P := fun id _ => x ∈ t.nodesMatching id p into →
    p (t.element x) = true ∧ ∃ d, t.document? x = some d) ?_ h hx
  intro id ds _ hdocument hheld hx
  have hbelow : x ∈ (t.element id).children.flatMap (fun c => t.nodesMatching c p into) →
      p (t.element x) = true ∧ ∃ d, t.document? x = some d := by
    intro hx
    obtain ⟨c, hc, hx⟩ := List.mem_flatMap.mp hx
    obtain ⟨_, _, _, hfound⟩ := Element.exists_of_forall₂ hheld hc
    exact hfound hx
  rw [nodesMatching_node _ _ hdocument] at hx
  dsimp only at hx
  split at hx
  · rename_i hp
    rcases List.mem_cons.mp hx with rfl | hx
    · exact ⟨hp, _, hdocument⟩
    · split at hx
      · exact hbelow hx
      · cases hx
  · exact hbelow hx

/-! ## What a document says -/

variable {α : Type} {pick : Element Document → Option α}

/-- What is picked from the document below a node, it can be told from the elements of the nodes. -/
theorem all_of_document {pickAt : Element NodeId → Option α}
    (hpick : ∀ (e : Element NodeId) (ds : List Document), e.Takes ds.length →
      pick (e.refill ds) = pickAt e) (h : t.document? id = some d) :
    d.all pick = (t.nodesMatching id (fun e => (pickAt e).isSome) true).filterMap fun x =>
      pickAt (t.element x) := by
  refine document?_induct (P := fun id d =>
    d.all pick = (t.nodesMatching id (fun e => (pickAt e).isSome) true).filterMap fun x =>
      pickAt (t.element x)) ?_ h
  intro id ds _ hdocument hheld
  have htakes : (t.element id).Takes ds.length := Or.inr hheld.length_eq.symm
  have hbelow := Element.flatMap_of_forall₂ (hheld.imp fun _ _ hd => hd.2.symm)
  rw [Document.all_node, Element.children_refill _ _ htakes, hpick _ _ htakes, ← hbelow,
    nodesMatching_node _ _ hdocument]
  cases hfound : pickAt (t.element id) <;> simp [hfound, List.filterMap_flatMap]

/-- What is picked from the outermost elements of the document below a node is picked from the documents
of the outermost nodes. -/
theorem outermost_of_document {p : Element NodeId → Bool}
    (hpick : ∀ (e : Element NodeId) (ds : List Document), e.Takes ds.length →
      (pick (e.refill ds)).isSome = p e) (h : t.document? id = some d) :
    d.outermost pick = (t.nodesMatching id p false).filterMap fun x =>
      (t.document? x).bind fun d => pick d.element := by
  refine document?_induct (P := fun id d =>
    d.outermost pick = (t.nodesMatching id p false).filterMap fun x =>
      (t.document? x).bind fun d => pick d.element) ?_ h
  intro id ds _ hdocument hheld
  have htakes : (t.element id).Takes ds.length := Or.inr hheld.length_eq.symm
  have hbelow := Element.flatMap_of_forall₂ (hheld.imp fun _ _ hd => hd.2.symm)
  have hown := hpick _ _ htakes
  rw [Document.outermost_node, Element.children_refill _ _ htakes, ← hbelow,
    nodesMatching_node _ _ hdocument]
  cases hfound : pick ((t.element id).refill ds) with
  | none =>
    rw [hfound] at hown
    simp [← hown, List.filterMap_flatMap]
  | some found =>
    rw [hfound] at hown
    simp [← hown, hdocument, Document.element, hfound]

end

end Tree

end WikiHtml
