-- Passes that plant documents leave a proper tree: below a page without a parent every node is in one
-- place of the whole table. The nodes that were replaced stay in the table and still hold what they
-- held, so it is not enough to look at the nodes below the top. What comes into a place is the node
-- that was there or one that no other place names, as the nodes of a document are new throughout.
import WikiHtml.Proofs.Calendar.Days
import WikiHtml.Proofs.Substitution.PassRun
import WikiHtml.Proofs.Tree.Sharing

namespace WikiHtml.Substitution

variable {pass : Pass} {top : Option NodeId}

/-! ## One pass -/

/-- What is put into a place is what is left of the node that was there, or a new empty list. -/
theorem patch_holdsNew {t t₁ : Tree} {r : Option Outline} {old : NodeId} (h : t.HoldsNew t₁)
    (hr : ∀ o, r = some o → t.Fits t₁ old o.id) :
    t.HoldsNew (patch t₁ r).2 ∧ t.Fits (patch t₁ r).2 old (patch t₁ r).1.id := by
  cases r with
  | some o => exact ⟨h, hr o rfl⟩
  | none =>
    obtain ⟨hempty, hfree⟩ := h.unshared.addEmpty
    exact ⟨h.trans hempty, Or.inr ⟨h.size_le, hfree⟩⟩

/-- A pass keeps a node or puts a document into its place. The document has new nodes throughout,
also where the pass read it from this tree. -/
theorem take_holdsNew {verdict : Verdict} {t t₁ : Tree} {id new : NodeId} (ht : t.Unshared)
    (h : verdict.move.take t id = (some new, t₁)) : t.HoldsNew t₁ ∧ t.Fits t₁ id new := by
  cases verdict with
  | keep =>
    simp only [Verdict.move, Move.take, Move.run, if_true, Prod.mk.injEq, Option.some.injEq] at h
    obtain ⟨rfl, rfl⟩ := h
    exact ⟨ht.holdsNew_self, Or.inl rfl⟩
  | delete => simp [Verdict.move, Move.take, Move.run] at h
  | put document =>
    obtain ⟨o, hid, hplanted⟩ := t.addDocument_planted document
    obtain ⟨hnew, hge, hfree⟩ := hplanted.holdsNew ht
    simp only [Verdict.move, Move.take, Move.run, ← hid, Prod.mk.injEq, Option.some.injEq] at h
    obtain ⟨rfl, rfl⟩ := h
    split
    · exact ⟨hnew, Or.inr ⟨hge, hfree⟩⟩
    · exact ⟨hnew.congr (by simp) (by simp), Or.inr ⟨hge, by simpa using hfree⟩⟩

/-- A run of a pass shares no node, and what it leaves in the place of a node fits there. -/
theorem run_holdsNew :
    (∀ {o above t s r t' s' visits}, Run pass.callback top o above t s r t' s' visits →
      t.Unshared → t.HoldsNew t' ∧ ∀ o', r = some o' → t.Fits t' o.id o'.id) ∧
    (∀ {p front rest above t s held' t' s' visits},
      RunHeld pass.callback top p front rest above t s held' t' s' visits →
      t.Unshared → t.HoldsNew t') := by
  refine run_induct ?_ ?_ ?_ ?_ ?_ ?_
  · intro id held held' above t t' s s' visits _ _ _ ih ht
    refine ⟨ih ht, fun o' ho' => ?_⟩
    obtain rfl := Option.some.inj ho'
    exact Or.inl rfl
  · intro o above t s s' m _ _ _ _ ht
    exact ⟨ht.holdsNew_self, by simp⟩
  · intro o new held held' above t t₁ t' s s₁ s' m visits _ _ hc htaken site' _ _ _ _ ih ht
    obtain ⟨verdict, _, rfl⟩ := pass_decided.mp hc
    obtain ⟨hnew, hfits⟩ := take_holdsNew ht htaken
    have hrest := ih hnew.unshared
    refine ⟨hnew.trans hrest, fun o' ho' => ?_⟩
    obtain rfl := Option.some.inj ho'
    exact hfits.later hrest site'.stands.spans.inside
  · intro p front above t s _ ht
    exact ht.holdsNew_self
  · intro p front rest held' o above t t₁ t' s s₁ s' r visits later hm _ _ hr _ ih ih' ht
    obtain ⟨hrun, hfits⟩ := ih ht
    obtain ⟨hpatch, hfits⟩ := patch_holdsNew hrun hfits
    obtain ⟨hk, _, hp⟩ := hm.child_after hr.changes
    have hheld : t.Held o.id := ⟨p, List.mem_of_getElem? hm.child⟩
    have hfill := hpatch.refit hp hk hheld hr.spans.inside hfits
    exact hfill.trans (ih' hfill.unshared)
  · intro p front rest held' o above t t₁ t' s s₁ s' visits later hm _ hl hch _ ih ih' ht
    obtain ⟨hrun, _⟩ := ih ht
    obtain ⟨hk, _, hp⟩ := hm.child_after hch
    have hl' : (t₁.element p).isList = true := (hm.unchanged hch).1 ▸ hl
    have hdrop := hrun.takeOut hl' hk hp
    exact hdrop.trans (ih' hdrop.unshared)

/-! ## Whole trees -/

/-- A whole tree in which no node is shared, and none holds the top. -/
structure Unmixed (t : Tree) (o : Outline) : Prop extends Whole t o where
  unshared : t.Unshared
  free : ¬ t.Held o.id

theorem onTop_unshared {t : Tree} {o : Outline} (path : Option String) (span : Option Span)
    (ht : t.Unshared) (hin : o.id < t.size) (hfree : ¬ t.Held o.id) :
    (onTop t path span o).2.Unshared ∧
      ¬ (onTop t path span o).2.Held (onTop t path span o).1.id := by
  unfold onTop
  split
  · exact ⟨ht, hfree⟩
  · exact ht.add span (by simpa [Element.children] using hin) (by simp [Element.children])
      (by simpa [Element.children] using hfree)

theorem empty_unshared : Tree.empty.Unshared := by
  have hnone : ∀ holder, (Tree.empty.element holder).children = [] := fun holder => by
    rw [Tree.element_of_size_le (Nat.zero_le holder)]
    rfl
  refine ⟨fun holder x hx => ?_, fun holder => ?_, fun holder _ x hx _ => ?_⟩
  · simp [hnone] at hx
  · simp [hnone]
  · simp [hnone] at hx

theorem ofDocument_unmixed (d : Document) :
    ∃ o, Unmixed (Tree.ofDocument d) o ∧
      ((Tree.ofDocument d).element o.id).isPage = d.element.isPage := by
  obtain ⟨o, hid, hplanted⟩ := Tree.empty.addDocument_planted d
  obtain ⟨hnew, _, hfree⟩ := hplanted.holdsNew empty_unshared
  have hd : Tree.ofDocument d = ((Tree.empty.addDocument d).2).setRoot o.id := by rw [hid]; rfl
  obtain ⟨o', hw, hshown⟩ := ofDocument_whole d
  have hsame : o'.id = o.id := by
    have hroot := hw.root
    rw [hd, Tree.root_setRoot] at hroot
    exact (Option.some.inj hroot).symm
  refine ⟨o', ⟨hw, ?_, ?_⟩, ?_⟩
  · rw [hd]
    exact hnew.unshared.congr (by simp) (by simp)
  · rw [hsame, hd, Tree.held_setRoot]
    exact hfree
  · rw [← isPage_shown hw.stands, hshown]

/-- After a pass the tree is whole and unmixed, with a page at its top. -/
theorem apply_unmixed {r : Repository} {t t' : Tree} {o : Outline} (h : Unmixed t o)
    (hpass : pass.apply r t = .ok t') :
    ∃ o', Unmixed t' o' ∧ (t'.element o'.id).isPage = true := by
  obtain ⟨res, t₁, visits, hrun, rfl⟩ := run_of_apply h.toWhole hpass
  obtain ⟨hwhole, hpage⟩ := whole_after hrun
  obtain ⟨hnew, hfits⟩ := run_holdsNew.1 hrun h.unshared
  obtain ⟨hpatch, hfits⟩ := patch_holdsNew hnew hfits
  have hfree : ¬ (patch t₁ res).2.Held (patch t₁ res).1.id := by
    rcases hfits with hsame | ⟨_, hfree⟩
    · rw [hsame]
      exact fun hheld => h.free (hpatch.held o.id h.stands.spans.inside hheld)
    · exact hfree
  obtain ⟨hunshared, htop⟩ := onTop_unshared (t.pagePath o.id) (t.span o.id) hpatch.unshared
    (pass_stands hrun).spans.inside hfree
  refine ⟨_, ⟨hwhole, ?_, ?_⟩, hpage⟩ <;> unfold cap
  · exact hunshared.congr (by simp) (by simp)
  · rw [Tree.held_setRoot]
    exact htop

/-- Passes one after another leave the tree whole and unmixed, and its top a page if one of them ran
or if it was a page before. -/
theorem applyAll_unmixed {r : Repository} {sequence : List Pass} {t t' : Tree} {o : Outline}
    (h : Unmixed t o) (hall : applyAll sequence r t = .ok t') :
    ∃ o', Unmixed t' o' ∧
      (t'.element o'.id).isPage = ((t.element o.id).isPage || !sequence.isEmpty) := by
  induction sequence generalizing t o with
  | nil =>
    obtain rfl : t = t' := Except.ok.inj hall
    exact ⟨o, h, by simp⟩
  | cons pass rest ih =>
    rw [applyAll, List.foldlM_cons] at hall
    obtain ⟨t₁, hpass, hrest⟩ := except_bind_ok hall
    obtain ⟨o₁, h₁, hpage⟩ := apply_unmixed h hpass
    obtain ⟨o', h', hpage'⟩ := ih h₁ hrest
    exact ⟨o', h', by rw [hpage', hpage]; simp⟩

/-! ## Proper trees -/

/-- A proper tree below a top that has no parent and that no node holds. Every node below has a
number of the table and is in one place of the whole table; the node of that place is below the top
too and is the parent of the node. No node comes again below itself. -/
structure Proper (t : Tree) (top : NodeId) : Prop where
  root : t.root = some top
  loose : t.parent top = none
  free : ¬ t.Held top
  inside : ∀ x, t.Reaches top x → x < t.size
  place : ∀ x, t.Reaches top x → x ≠ top →
    ∃ (holder : NodeId) (k : Nat), (t.element holder).children[k]? = some x ∧
      (∀ (holder' : NodeId) (k' : Nat), (t.element holder').children[k']? = some x →
        holder' = holder ∧ k' = k) ∧
      t.Reaches top holder ∧ t.parent x = some holder
  acyclic : ∀ x, t.Reaches top x →
    ¬ Relation.TransGen (fun holder y => y ∈ (t.element holder).children) x x

theorem Unmixed.proper {t : Tree} {o : Outline} (h : Unmixed t o) : Proper t o.id where
  root := h.root
  loose := h.loose
  free := h.free
  inside x hx := h.stands.spans.lt_size x (h.stands.spans.mem_of_reaches hx)
  place x hx hne := by
    rcases hx.cases_tail with rfl | ⟨holder, hholder, hx⟩
    · exact absurd rfl hne
    · obtain ⟨k, hk⟩ := List.mem_iff_getElem?.mp hx
      refine ⟨holder, k, hk, fun holder' k' hk' => h.unshared.place_unique hk hk', hholder, ?_⟩
      have he := h.stands.spans.edge_iff.mpr ⟨h.stands.spans.mem_of_reaches hholder, hx⟩
      simpa using h.stands.linked (holder, x) he
  acyclic x hx := h.stands.spans.acyclic h.stands.nodup (h.stands.spans.mem_of_reaches hx)

/-- A page with a table of contents and a heading. -/
def pageWithHeading : Document :=
  .node (.wrap (.page (some "/p")) (some (.node (.list [.node (.leaf .tableOfContents) none,
    .node (.wrap (.heading 1) (some (.node (.leaf (.text "x")) none))) none]) none))) none

/-- The page after that: node 6 is a copy of the text of the heading, which is node 1. -/
def pageWithContents : Tree :=
  ⟨#[⟨.leaf .tableOfContents, none, none⟩, ⟨.leaf (.text "x"), none, some 2⟩,
    ⟨.wrap (.heading 1) (some 1), none, some 3⟩, ⟨.list [10, 2], none, some 4⟩,
    ⟨.wrap (.page (some "/p")) (some 3), none, none⟩, ⟨.leaf (.text "1. "), none, some 7⟩,
    ⟨.leaf (.text "x"), none, some 7⟩, ⟨.list [5, 6], none, some 8⟩,
    ⟨.wrap (.linkPage none (some "x")) (some 7), none, some 9⟩,
    ⟨.wrap (.paragraph false 1 false) (some 8), none, some 10⟩, ⟨.list [9], none, some 3⟩],
    some 4⟩

/-- Noon of a day in March. -/
def noon : Calendar.Moment :=
  ⟨⟨2024, 3, 15, Calendar.Date.isDay_ides⟩, 12, 0, 0, 0⟩

end WikiHtml.Substitution
