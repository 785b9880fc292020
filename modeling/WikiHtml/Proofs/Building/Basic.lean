-- What is built in a tree are new nodes in good order, which show documents. No node that was there is
-- held by them or changes: where something is to be shown again, it is copied.
import WikiHtml.Building.Basic
import WikiHtml.Document.Build
import WikiHtml.Proofs.Tree.Traversal

namespace WikiHtml.Building

variable {α β γ : Type}

/-! ## Running -/

theorem run_bind (b : Building α) (f : α → Building β) (t : Tree) :
    ((b >>= f).run t).run = ((f (b.run t).run.1).run (b.run t).run.2).run :=
  rfl

theorem run_pure (a : α) (t : Tree) : ((pure a : Building α).run t).run = (a, t) :=
  rfl

theorem run_add (e : Element NodeId) (t : Tree) : ((add e).run t).run = t.add e none :=
  rfl

/-! ## What is built -/

/-- In a tree that has grown out of `t₀`, new nodes are built that show the documents, and `tops` tells
from the answer which of them are at the top. -/
def Builds (t₀ : Tree) (tops : α → List NodeId) (b : Building α) (ds : List Document) : Prop :=
  ∀ t, t₀.Changes t [] → ∃ os : List Outline,
    os.map Outline.id = tops (b.run t).run.1 ∧ t.Added (b.run t).run.2 os ds

/-- One document is built. -/
abbrev Makes (t₀ : Tree) (b : Building NodeId) (d : Document) : Prop :=
  Builds t₀ (fun id => [id]) b [d]

section

variable {t₀ : Tree} {tops : α → List NodeId} {tops' : β → List NodeId} {tops'' : γ → List NodeId}
  {b : Building α} {c : Building β} {ds ds' : List Document}

theorem builds_nothing {a : α} (h : tops a = []) : Builds t₀ tops (pure a) [] := by
  intro t _
  refine ⟨[], ?_, ?_⟩
  · rw [run_pure, h, List.map_nil]
  · rw [run_pure]
    exact .nil t

/-- What is built in two steps is built, with what the first one built in front of the rest. -/
theorem Builds.both (hb : Builds t₀ tops b ds) (hc : Builds t₀ tops' c ds') {k : α → β → γ}
    (hk : ∀ x y, tops'' (k x y) = tops x ++ tops' y) :
    Builds t₀ tops'' (do let x ← b; let y ← c; return k x y) (ds ++ ds') := by
  intro t ht
  obtain ⟨os, hos, hadded⟩ := hb t ht
  obtain ⟨os', hos', hadded'⟩ := hc _ (ht.trans hadded.changes (by simp))
  refine ⟨os ++ os', ?_, ?_⟩
  · simp only [run_bind, run_pure, hk, List.map_append, hos, hos']
  · simp only [run_bind, run_pure]
    exact hadded.append hadded'

/-- The same where what the first step built comes behind the rest. -/
theorem Builds.crossed (hb : Builds t₀ tops b ds) (hc : Builds t₀ tops' c ds') {k : α → β → γ}
    (hk : ∀ x y, tops'' (k x y) = tops' y ++ tops x) :
    Builds t₀ tops'' (do let x ← b; let y ← c; return k x y) (ds' ++ ds) := by
  intro t ht
  obtain ⟨os, hos, hadded⟩ := hb t ht
  obtain ⟨os', hos', hadded'⟩ := hc _ (ht.trans hadded.changes (by simp))
  refine ⟨os' ++ os, ?_, ?_⟩
  · simp only [run_bind, run_pure, hk, List.map_append, hos, hos']
  · simp only [run_bind, run_pure]
    exact (hadded.append hadded').swap hadded.length_eq

/-- A new node may hold all that was built, whatever its element is. -/
theorem Builds.hold {b : Building (List NodeId)} (h : Builds t₀ (fun ids => ids) b ds) {e : Element α}
    (he : e.Takes ds.length) :
    Makes t₀ (do let ids ← b; add (e.refill ids)) (.node (e.refill ds) none) := by
  intro t ht
  obtain ⟨os, hos, hadded⟩ := h t ht
  have hchildren : (e.refill ds).children = ds := e.children_refill ds he
  have hall : t.Added (b.run t).run.2 (os ++ []) ((e.refill ds).children ++ []) := by
    rw [List.append_nil, List.append_nil, hchildren]
    exact hadded
  have hnode := hall.add none (by rw [hchildren, hadded.length_eq])
  rw [e.refill_refill ds _ he, hos] at hnode
  refine ⟨_, ?_, hnode⟩
  simp only [run_bind, run_add, Tree.add_fst, List.map_cons, Outline.id_node, List.map_nil]

/-- A list may hold all that was built. -/
theorem Builds.gather {b : Building (List NodeId)} (h : Builds t₀ (fun ids => ids) b ds) :
    Makes t₀ (do let ids ← b; add (.list ids)) (.group ds) :=
  h.hold (e := (.list [] : Element Document)) (Or.inl rfl)

/-! ## Elements and copies -/

theorem builds_all {parts : List (Building NodeId)} (h : List.Forall₂ (Makes t₀) parts ds) :
    Builds t₀ (fun ids => ids) (all parts) ds := by
  induction h with
  | nil => exact builds_nothing rfl
  | cons hfirst _ ih =>
    rw [all, List.mapM_cons]
    exact hfirst.both ih fun _ _ => rfl

theorem makes_node {e : Element (Building NodeId)} (h : List.Forall₂ (Makes t₀) e.children ds) :
    Makes t₀ (node e) (.node (e.refill ds) none) := by
  have hnode : node e = (do let ids ← all e.children; add (e.refill ids)) := by
    rw [node, Element.mapM_eq, bind_map_left]
    rfl
  rw [hnode]
  exact (builds_all h).hold (Or.inr h.length_eq.symm)

/-- An added document is built. -/
theorem makes_document {b : Building NodeId} {d : Document}
    (h : ∀ t, t₀.Changes t [] → (b.run t).run = t.addDocument d) : Makes t₀ b d := by
  intro t ht
  obtain ⟨o, hid, hplanted⟩ := t.addDocument_planted d
  refine ⟨[o], ?_, ?_⟩
  · rw [h t ht, List.map_singleton, hid]
  · rw [h t ht]
    exact hplanted.toAdded

/-- A copy of a node shows the document of the node, and all nodes of the copy are new. -/
theorem makes_copy {id : NodeId} {d : Document} (h : t₀.document? id = some d) :
    Makes t₀ (copy id) d :=
  makes_document fun _ ht => Tree.deepClone_of_document (Tree.document?_later ht h)

theorem makes_copyFrom {other : Tree} {id : NodeId} {d : Document}
    (h : other.document? id = some d) : Makes t₀ (copyFrom other id) d :=
  makes_document fun _ _ => Tree.copyFrom_of_document h

theorem makes_ofLeaf (leaf : Leaf) : Makes t₀ (ofLeaf leaf) (.ofLeaf leaf) :=
  makes_node .nil

theorem makes_text (s : String) : Makes t₀ (text s) (.text s) :=
  makes_ofLeaf _

theorem makes_group {members : List (Building NodeId)} (h : List.Forall₂ (Makes t₀) members ds) :
    Makes t₀ (group members) (.group ds) :=
  makes_node h

theorem makes_wrapped (w : Wrapper) {child : Building NodeId} {d : Document}
    (h : Makes t₀ child d) : Makes t₀ (wrapped w child) (.wrapped w d) := by
  have hheld : List.Forall₂ (Makes t₀) (Element.wrap w (some child)).children [d] := .cons h .nil
  exact makes_node hheld

theorem makes_paragraph {members : List (Building NodeId)} (h : List.Forall₂ (Makes t₀) members ds) :
    Makes t₀ (paragraph members) (.paragraph ds) :=
  makes_wrapped _ (makes_group h)

theorem makes_textParagraph (s : String) : Makes t₀ (textParagraph s) (.textParagraph s) :=
  makes_paragraph (.cons (makes_text s) .nil)

theorem makes_pageLink (path shown : String) : Makes t₀ (pageLink path shown) (.pageLink path shown) :=
  makes_wrapped _ (makes_text shown)

/-- Where each of some values is built and shown, so are all of them. -/
theorem makes_map {values : List α} {build : α → Building NodeId} {shown : α → Document}
    (h : ∀ x, Makes t₀ (build x) (shown x)) :
    List.Forall₂ (Makes t₀) (values.map build) (values.map shown) := by
  rw [List.forall₂_map_left_iff, List.forall₂_map_right_iff, List.forall₂_same]
  exact fun x _ => h x

/-- Some documents are built unless a condition says that there are none. -/
theorem makes_unless (p : Prop) [Decidable p] {members : List (Building NodeId)}
    (h : List.Forall₂ (Makes t₀) members ds) :
    List.Forall₂ (Makes t₀) (if p then [] else members) (if p then [] else ds) := by
  split
  · exact .nil
  · exact h

theorem makes_intersperse {members : List (Building NodeId)} {between : Building NodeId}
    {separator : Document} (h : List.Forall₂ (Makes t₀) members ds)
    (hbetween : Makes t₀ between separator) :
    List.Forall₂ (Makes t₀) (members.intersperse between) (ds.intersperse separator) := by
  induction h with
  | nil => exact .nil
  | cons hfirst hrest ih =>
    cases hrest with
    | nil => exact .cons hfirst .nil
    | cons hnext hlater => exact .cons hfirst (.cons hbetween ih)

end

end WikiHtml.Building
