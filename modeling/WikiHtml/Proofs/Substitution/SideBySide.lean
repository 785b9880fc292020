-- A pass that plants documents and one that builds nodes in its own order go along with each other. After
-- each step the trees differ in the numbers only, and the nodes that were there keep the numbers that
-- they have; so what comes next has the numbers of what came before at hand.
import WikiHtml.Proofs.Substitution.PassRun
import WikiHtml.Proofs.Substitution.Renumbering
import WikiHtml.Proofs.Substitution.Rewriting
import WikiHtml.Proofs.Tree.Alignment
import WikiHtml.Proofs.Tree.Cells

namespace WikiHtml.Substitution

open WikiHtml.Tree Building

variable {α β : Type} {f g : Equiv.Perm NodeId} {t u : Tree}

/-! ## Side by side -/

/-- Two trees have changed side by side. They differ in the numbers only, and the nodes that were there
have the numbers that they had. -/
structure Beside (f g : Equiv.Perm NodeId) (t t' u' : Tree) : Prop where
  renumbered : Renumbered g t' u'
  inside : t'.Inside
  size_le : t.size ≤ t'.size
  agree : ∀ x < t.size, g x = f x

namespace Beside

variable {k : Equiv.Perm NodeId} {t' u' t'' u'' : Tree}

theorem refl (h : Renumbered f t u) (ht : t.Inside) : Beside f f t t u :=
  ⟨h, ht, Nat.le_refl _, fun _ _ => rfl⟩

theorem trans (h : Beside f g t t' u') (h' : Beside g k t' t'' u'') : Beside f k t t'' u'' where
  renumbered := h'.renumbered
  inside := h'.inside
  size_le := Nat.le_trans h.size_le h'.size_le
  agree x hx := by rw [h'.agree x (Nat.lt_of_lt_of_le hx h.size_le), h.agree x hx]

/-- A change in both trees that leaves the numbers. -/
theorem step (h : Beside f g t t' u') (hr : Renumbered g t'' u'') (hi : t''.Inside)
    (hs : t'.size ≤ t''.size) : Beside f g t t'' u'' :=
  ⟨hr, hi, Nat.le_trans h.size_le hs, h.agree⟩

theorem agree_map (h : Beside f g t t' u') {x : Option NodeId} (hx : ∀ y ∈ x, y < t.size) :
    x.map g = x.map f := by
  cases x with
  | none => rfl
  | some y => rw [Option.map_some, Option.map_some, h.agree y (hx y rfl)]

theorem lt_size (h : Beside f g t t' u') {x : NodeId} (hx : x < t.size) : x < t'.size :=
  Nat.lt_of_lt_of_le hx h.size_le

/-- A node takes the parent that another one had before. -/
theorem setParent (hb : Beside f g t t' u') (h : Renumbered f t u) (ht : t.Inside)
    (id new : NodeId) :
    Beside f g t (t'.setParent new (t.parent id)) (u'.setParent (g new) (u.parent (f id))) := by
  have hparent : u.parent (f id) = (t.parent id).map g := by
    rw [h.parent_eq, hb.agree_map fun p hp => ht.parent hp]
  rw [hparent]
  refine hb.step (hb.renumbered.setParent new (t.parent id)) ?_ (Nat.le_of_eq (by simp))
  exact hb.inside.setParent new fun p hp => hb.lt_size (ht.parent hp)

theorem setChild (h : Beside f g t t' u') {id new : NodeId} (hid : id < t.size) (hn : new < t'.size) :
    Beside f g t (t'.setChild id (some new)) (u'.setChild (f id) (some (g new))) := by
  rw [← h.agree id hid]
  have hinside : (t'.setChild id (some new)).Inside :=
    h.inside.setChild (h.lt_size hid) (by simpa using hn)
  exact h.step (h.renumbered.setChild id (some new)) hinside (Nat.le_of_eq (by simp))

theorem listSet (h : Beside f g t t' u') {list new : NodeId} (hl : list < t.size) (k : Nat)
    (hn : new < t'.size) : Beside f g t (t'.listSet list k new) (u'.listSet (f list) k (g new)) := by
  rw [← h.agree list hl]
  exact h.step (h.renumbered.listSet list k new) (h.inside.listSet (h.lt_size hl) k hn)
    (Nat.le_of_eq (by simp))

theorem listRemove (h : Beside f g t t' u') {list : NodeId} (hl : list < t.size) (k : Nat) :
    Beside f g t (t'.listRemove list k).2 (u'.listRemove (f list) k).2 := by
  rw [← h.agree list hl]
  exact h.step (h.renumbered.listRemove list k) (h.inside.listRemove list k)
    (Nat.le_of_eq (by simp))

theorem setCellContent (h : Beside f g t t' u') {table new : NodeId} (ht : table < t.size)
    (row cell : Nat) (hn : new < t'.size) :
    Beside f g t (t'.setCellContent table row cell (some new))
      (u'.setCellContent (f table) row cell (some (g new))) := by
  rw [← h.agree table ht]
  have hinside : (t'.setCellContent table row cell (some new)).Inside :=
    h.inside.setCellContent (h.lt_size ht) row cell (by simpa using hn)
  exact h.step (h.renumbered.setCellContent table row cell (some new)) hinside
    (Nat.le_of_eq (by simp))

end Beside

/-- Two answers about nodes that correspond: what is left of them corresponds, in trees that have
changed side by side. -/
def AnswersBeside (f : Equiv.Perm NodeId) (t : Tree) (a b : Answer Unit) : Prop :=
  ∃ g, Beside f g t a.2.1 b.2.1 ∧ b.1 = a.1.map g ∧ ∀ x ∈ a.1, x < a.2.1.size

/-- What comes after answers that correspond has trees at hand that have changed side by side. -/
theorem Alike.after {R : α → β → Prop} {a b : Except (Stop Event.Fault) (Answer Unit)}
    (h : Alike (AnswersBeside f t) a b) {next : Answer Unit → Except (Stop Event.Fault) α}
    {next' : Answer Unit → Except (Stop Event.Fault) β}
    (hnext : ∀ new t' u' g, Beside f g t t' u' → (∀ x ∈ new, x < t'.size) →
      Alike R (next (new, t', ())) (next' (new.map g, u', ()))) :
    Alike R (a >>= next) (b >>= next') := by
  refine h.bind ?_
  rintro ⟨new, t', _⟩ ⟨new', u', _⟩ ⟨g, hb, hnew, hlt⟩
  obtain rfl : new' = new.map g := hnew
  exact hnext new t' u' g hb hlt

/-- Two trees that have changed side by side. -/
def TreesBeside (f : Equiv.Perm NodeId) (t : Tree) (a b : Tree × Unit) : Prop :=
  ∃ g, Beside f g t a.1 b.1

theorem TreesBeside.after {t' u' : Tree} (h : Beside f g t t' u') {a b : Tree × Unit}
    (hab : TreesBeside g t' a b) : TreesBeside f t a b := by
  obtain ⟨k, hk⟩ := hab
  exact ⟨k, h.trans hk⟩

/-! ## Offered nodes -/

/-- Two rules answer side by side to nodes that correspond. -/
def RulesBeside (rule rule' : Rule Unit Event.Fault) : Prop :=
  ∀ f t u id, Renumbered f t u → t.Inside → id < t.size →
    Alike (AnswersBeside f t) (offer rule id t ()) (offer rule' (f id) u ())

/-- A document that is planted in one tree and built in the other. -/
theorem beside_of_makes (h : Renumbered f t u) (ht : t.Inside) {b : Building NodeId} {d : Document}
    (hb : Makes u b d) : ∃ g, Beside f g t (t.addDocument d).2 (b.run u).run.2 ∧
      (b.run u).run.1 = g (t.addDocument d).1 ∧ t.size ≤ (t.addDocument d).1 ∧
      (t.addDocument d).1 < (t.addDocument d).2.size := by
  obtain ⟨o, hid, hplanted⟩ := t.addDocument_planted d
  obtain ⟨o₁, hid₁, hplanted₁⟩ := u.addDocument_planted d
  obtain ⟨os, hos, hadded⟩ := hb u (.refl u [])
  obtain ⟨o₂, rfl⟩ := List.length_eq_one_iff.mp hadded.length_eq
  obtain ⟨hsame, hboth⟩ := h.addDocument d
  obtain ⟨k, hk, hfixed, htop⟩ := hplanted₁.toAdded.renumbered (h.inside ht) hadded
  have hle := hplanted.changes.size_le
  have hnew := hplanted.toAdded.mem_ids_iff.mp o.id_mem_ids
  rw [hid] at hnew
  refine ⟨f.trans k, ⟨hboth.trans hk, hplanted.toAdded.inside ht, hle, fun x hx => ?_⟩, ?_, hnew⟩
  · rw [Equiv.trans_apply, hfixed _ (h.lt_size_iff.mpr hx)]
  · rw [Equiv.trans_apply, ← hsame, ← hid₁, htop]
    exact (List.cons.inj hos).1.symm

/-- A rewriting that follows a pass goes along with it. -/
theorem rulesBeside {pass : Pass} {rewriting : Rewriting} (hpass : pass.IgnoresNumbers)
    (hfollows : rewriting.Follows pass) : RulesBeside pass.rule rewriting.rule := by
  intro f t u id h ht hid
  unfold offer
  rw [h.element_eq, Element.isList_map]
  split
  · exact .ok ⟨f, .refl h ht, rfl, fun x hx => Option.some.inj hx ▸ hid⟩
  · have hdoes := hfollows u (f id)
    rw [hpass h] at hdoes
    unfold Pass.rule Rewriting.rule
    generalize pass t id = said at hdoes ⊢
    generalize rewriting u (f id) = done at hdoes ⊢
    cases hdoes with
    | error cause => exact .error _
    | ok hdoes =>
      cases hdoes with
      | keep =>
        simp only [bind, Except.bind, pure, Except.pure, if_true]
        exact .ok ⟨f, .refl h ht, rfl, fun x hx => Option.some.inj hx ▸ hid⟩
      | delete => exact .ok ⟨f, .refl h ht, rfl, nofun⟩
      | build hmade =>
        obtain ⟨g, hbeside, hnew, hge, hlt⟩ := beside_of_makes h ht hmade
        rename_i b d
        have hne : (t.addDocument d).1 ≠ id := fun he => Nat.not_le.mpr hid (he ▸ hge)
        have hne' : (b.run u).run.1 ≠ f id := by
          rw [hnew, ← hbeside.agree id hid]
          exact fun he => hne (g.injective he)
        have hset := hbeside.setParent h ht id (t.addDocument d).1
        rw [← hnew] at hset
        simp only [bind, Except.bind, pure, Except.pure, if_neg hne, if_neg hne']
        refine .ok ⟨g, hset, by rw [Option.map_some, hnew], ?_⟩
        exact fun x hx => Option.some.inj hx ▸ (by simpa using hlt)

/-! ## Walks -/

/-- An empty list in the place of a deleted node has the same number in both trees. -/
theorem orEmpty_beside {t' u' : Tree} (h : Beside f g t t' u') {new : Option NodeId}
    (hn : ∀ x ∈ new, x < t'.size) :
    (orEmpty u' (new.map g)).1 = g (orEmpty t' new).1 ∧
      Beside f g t (orEmpty t' new).2 (orEmpty u' (new.map g)).2 ∧
      (orEmpty t' new).1 < (orEmpty t' new).2.size := by
  cases new with
  | some id => exact ⟨rfl, h, hn id rfl⟩
  | none =>
    refine ⟨h.renumbered.size_fixed.symm, ?_, ?_⟩
    · have hinside : t'.addEmpty.2.Inside := h.inside.add (e := .list []) none (by nofun)
      exact h.step (h.renumbered.add (.list []) none) hinside (by simp [orEmpty, addEmpty])
    · simp [orEmpty, addEmpty]

/-- A place with another number for the node that is there. -/
def renumberPlace (f : NodeId → NodeId) (place : Place) : Place :=
  (place.1, place.2.1, f place.2.2)

theorem places_map (f : NodeId → NodeId) (rows : List (Row NodeId)) :
    places (rows.map fun row => ⟨row.params, row.cells.map fun cell =>
      ⟨cell.header, cell.params, cell.content.map f⟩⟩) = (places rows).map (renumberPlace f) := by
  have hrow : ∀ (index : Nat) (cells : List (Cell NodeId)),
      placesOfRow index (cells.map fun cell => ⟨cell.header, cell.params, cell.content.map f⟩) =
        (placesOfRow index cells).map (renumberPlace f) := by
    intro index cells
    rw [placesOfRow, placesOfRow, List.zipIdx_map, List.filterMap_map, List.map_filterMap]
    congr 1
    funext ⟨cell, column⟩
    simp only [Function.comp_apply, Prod.map_apply, Option.map_map]
    rfl
  rw [places, places, List.zipIdx_map, List.flatMap_map, List.map_flatMap]
  congr 1
  funext ⟨row, index⟩
  exact hrow index row.cells

theorem mem_contents_of_place {rows : List (Row NodeId)} {place : Place} (h : place ∈ places rows) :
    place.2.2 ∈ Element.contents rows := by
  rw [← placesDown_ids 0, ← places_eq]
  exact List.mem_map_of_mem h

/-- Walks of two rules with so much fuel go side by side, over a node, over the members of a list and
over the cells of a table. -/
structure WalksBeside (rule rule' : Rule Unit Event.Fault) (fuel : Nat) : Prop where
  node : ∀ {f t u id}, Renumbered f t u → t.Inside → id < t.size →
    Alike (AnswersBeside f t) (walk rule fuel id t ()) (walk rule' fuel (f id) u ())
  members : ∀ {f t u list}, Renumbered f t u → t.Inside → list < t.size → ∀ k,
    Alike (TreesBeside f t) (walkMembers rule fuel list k t ())
      (walkMembers rule' fuel (f list) k u ())
  cells : ∀ {f t u table}, Renumbered f t u → t.Inside → table < t.size →
    ∀ rest : List Place, (∀ place ∈ rest, place.2.2 < t.size) →
      Alike (TreesBeside f t) (walkPlaces rule fuel table rest t ())
        (walkPlaces rule' fuel (f table) (rest.map (renumberPlace f)) u ())

namespace WalksBeside

variable {rule rule' : Rule Unit Event.Fault} {fuel : Nat}

theorem outOfFuel : WalksBeside rule rule' 0 where
  node _ _ _ := by
    rw [walk, walk]
    exact .error _
  members _ _ _ k := by
    rw [walkMembers, walkMembers]
    exact .error _
  cells _ _ _ rest _ := by
    rw [walkPlaces, walkPlaces]
    exact .error _

theorem descend (hw : WalksBeside rule rule' fuel) {id : NodeId} (h : Renumbered f t u)
    (ht : t.Inside) (hid : id < t.size) :
    Alike (TreesBeside f t) (descend rule fuel id t ()) (descend rule' fuel (f id) u ()) := by
  unfold Substitution.descend
  rw [h.element_eq]
  rcases he : t.element id with members | ⟨w, _ | child⟩ | ⟨params, rows⟩ | l
  · exact hw.members h ht hid 0
  · exact .ok ⟨f, .refl h ht⟩
  · have hchild : child < t.size := ht.held (x := id) (by simp [he, Element.children])
    refine (hw.node h ht hchild).after fun new t' u' g hb hlt => ?_
    obtain ⟨hput, hempty, hin⟩ := orEmpty_beside hb hlt
    have hfilled := hempty.setChild hid hin
    rw [← hput] at hfilled
    exact .ok ⟨g, hfilled⟩
  · dsimp only [Element.map]
    rw [places_map]
    refine hw.cells h ht hid (places rows) fun place hplace => ht.held (x := id) ?_
    rw [he]
    exact mem_contents_of_place hplace
  · exact .ok ⟨f, .refl h ht⟩

theorem next_node (hrule : RulesBeside rule rule') (hw : WalksBeside rule rule' fuel) {id : NodeId}
    (h : Renumbered f t u) (ht : t.Inside) (hid : id < t.size) :
    Alike (AnswersBeside f t) (walk rule (fuel + 1) id t ()) (walk rule' (fuel + 1) (f id) u ()) := by
  rw [walk_succ, walk_succ]
  refine (hrule f t u id h ht hid).after fun new t' u' g hb hlt => ?_
  cases new with
  | none => exact .ok ⟨g, hb, rfl, nofun⟩
  | some new =>
    refine (hw.descend hb.renumbered hb.inside (hlt new rfl)).map fun a b ⟨k, hk⟩ => ?_
    refine ⟨k, hb.trans hk, ?_, fun x hx => ?_⟩
    · exact congrArg some (hk.agree new (hlt new rfl)).symm
    · exact Option.some.inj hx ▸ hk.lt_size (hlt new rfl)

theorem next_members (hw : WalksBeside rule rule' fuel) {list : NodeId} (h : Renumbered f t u)
    (ht : t.Inside) (hlist : list < t.size) (k : Nat) :
    Alike (TreesBeside f t) (walkMembers rule (fuel + 1) list k t ())
      (walkMembers rule' (fuel + 1) (f list) k u ()) := by
  rw [walkMembers_succ, walkMembers_succ, h.members_eq, List.getElem?_map]
  rcases hm : (t.members list)[k]? with _ | member
  · exact .ok ⟨f, .refl h ht⟩
  · have hmember : member < t.size := ht.member (List.mem_of_getElem? hm)
    refine (hw.node h ht hmember).after fun new t' u' g hb hlt => ?_
    cases new with
    | none =>
      have hdrop := hb.listRemove hlist k
      have hrest := hw.members hdrop.renumbered hdrop.inside (hdrop.lt_size hlist) k
      rw [hb.agree list hlist] at hrest
      exact hrest.imp fun _ _ => TreesBeside.after hdrop
    | some new =>
      have hset := hb.listSet hlist k (hlt new rfl)
      have hrest := hw.members hset.renumbered hset.inside (hset.lt_size hlist) (k + 1)
      rw [hb.agree list hlist] at hrest
      exact hrest.imp fun _ _ => TreesBeside.after hset

theorem next_cells (hw : WalksBeside rule rule' fuel) {table : NodeId} (h : Renumbered f t u)
    (ht : t.Inside) (htable : table < t.size) (rest : List Place)
    (hrest : ∀ place ∈ rest, place.2.2 < t.size) :
    Alike (TreesBeside f t) (walkPlaces rule (fuel + 1) table rest t ())
      (walkPlaces rule' (fuel + 1) (f table) (rest.map (renumberPlace f)) u ()) := by
  cases rest with
  | nil =>
    rw [List.map_nil, walkPlaces, walkPlaces]
    exact .ok ⟨f, .refl h ht⟩
  | cons place rest =>
    rw [List.map_cons, walkPlaces_cons, walkPlaces_cons]
    refine (hw.node h ht (hrest place List.mem_cons_self)).after fun new t' u' g hb hlt => ?_
    obtain ⟨hput, hempty, hin⟩ := orEmpty_beside hb hlt
    have hfilled := hempty.setCellContent htable place.1 place.2.1 hin
    rw [← hput] at hfilled
    have hlater : ∀ place ∈ rest, place.2.2 < t.size := fun place hp =>
      hrest place (List.mem_cons_of_mem _ hp)
    have hothers := hw.cells hfilled.renumbered hfilled.inside (hfilled.lt_size htable) rest
      fun place hp => hfilled.lt_size (hlater place hp)
    -- The places that are still to come have the numbers that they had.
    have hsame : rest.map (renumberPlace g) = rest.map (renumberPlace f) :=
      List.map_congr_left fun place hp => by
        rw [renumberPlace, hb.agree _ (hlater place hp), renumberPlace]
    rw [hb.agree table htable, hsame] at hothers
    exact hothers.imp fun _ _ => TreesBeside.after hfilled

end WalksBeside

/-- Walks by rules that answer side by side go side by side, however much fuel there is. -/
theorem walksBeside {rule rule' : Rule Unit Event.Fault} (hrule : RulesBeside rule rule')
    (fuel : Nat) : WalksBeside rule rule' fuel := by
  induction fuel with
  | zero => exact .outOfFuel
  | succ fuel ih => exact ⟨WalksBeside.next_node hrule ih, ih.next_members, ih.next_cells⟩

/-! ## Whole trees -/

/-- Trees that differ in the numbers only. -/
def SameButNumbers (t u : Tree) : Prop :=
  ∃ g, Renumbered g t u ∧ t.Inside

theorem asPage_beside {t' u' : Tree} (h : Beside f g t t' u') (path : Option String)
    (span : Option Span) {new : NodeId} (hn : new < t'.size) :
    (asPage u' path span (g new)).1 = g (asPage t' path span new).1 ∧
      Beside f g t (asPage t' path span new).2 (asPage u' path span (g new)).2 ∧
      (asPage t' path span new).1 < (asPage t' path span new).2.size := by
  unfold asPage
  rw [h.renumbered.element_eq, Element.isPage_map]
  split
  · exact ⟨rfl, h, hn⟩
  · have hinside : (t'.add (.wrap (.page path) (some new)) span).2.Inside :=
      h.inside.add span (by simpa [Element.children] using hn)
    exact ⟨h.renumbered.size_fixed.symm,
      h.step (h.renumbered.add (.wrap (.page path) (some new)) span) hinside (by simp), by simp⟩

theorem page_beside {rule rule' : Rule Unit Event.Fault} (hrule : RulesBeside rule rule')
    (h : Renumbered f t u) (ht : t.Inside) (fuel : Nat) :
    Alike (fun a b => SameButNumbers a.1 b.1) (page rule fuel t ()) (page rule' fuel u ()) := by
  unfold page
  rw [h.root_eq]
  cases hroot : t.root with
  | none => exact .ok ⟨f, h, ht⟩
  | some root =>
    dsimp only [Option.map_some]
    rw [h.pagePath_eq, h.span_eq]
    refine ((walksBeside hrule fuel).node h ht (ht.root root hroot)).after fun new t' u' g hb hlt => ?_
    obtain ⟨hput, hempty, hin⟩ := orEmpty_beside hb hlt
    obtain ⟨htop, hpage, hin'⟩ := asPage_beside hempty (t.pagePath root) (t.span root) hin
    have hset := hpage.renumbered.setRoot
      (asPage (orEmpty t' new).2 (t.pagePath root) (t.span root) (orEmpty t' new).1).1
    rw [← htop, ← hput] at hset
    exact .ok ⟨g, hset, hpage.inside.setRoot hin'⟩

/-- Rules that answer side by side end alike over a whole tree, and both end or none. -/
theorem applyRule_beside {rule rule' : Rule Unit Event.Fault} (hrule : RulesBeside rule rule')
    (h : Renumbered f t u) (ht : t.Inside) (r : Repository) :
    Alike SameButNumbers (applyRule rule r t) (applyRule rule' r u) := by
  have hpage := page_beside hrule h ht
  have hsame : ∀ fuel, page rule fuel t () = .error .outOfFuel ↔
      page rule' fuel u () = .error .outOfFuel := by
    intro fuel
    have hfuel := hpage fuel
    generalize page rule fuel t () = a at hfuel ⊢
    generalize page rule' fuel u () = b at hfuel ⊢
    cases hfuel with
    | error cause => exact Iff.rfl
    | ok hr => exact ⟨nofun, nofun⟩
  by_cases hends : ∀ fuel, page rule fuel t () = .error .outOfFuel
  · rw [applyRule_outOfFuel r hends, applyRule_outOfFuel r fun fuel => (hsame fuel).mp (hends fuel)]
    exact .error _
  · obtain ⟨fuel, hends⟩ := not_forall.mp hends
    rw [applyRule_eq_page r hends, applyRule_eq_page r fun he => hends ((hsame fuel).mpr he)]
    exact (hpage fuel).map fun _ _ hr => hr

/-- The passes as they work in the table of nodes: they end for the same cause as the passes that put
documents in, or with a tree that differs in the numbers only. -/
theorem rewriteAll_beside (names : List PassName) (r : Repository) (settings : Settings)
    (now : Calendar.Moment) (h : Renumbered f t u) (ht : t.Inside) :
    Alike SameButNumbers (applyAll (names.map (·.pass r settings now)) r t)
      (rewriteAll names r settings now u) := by
  induction names generalizing f t u with
  | nil => exact .ok ⟨f, h, ht⟩
  | cons name rest ih =>
    rw [List.map_cons, applyAll, rewriteAll, List.foldlM_cons, List.foldlM_cons]
    have hrule := rulesBeside (PassName.ignoresNumbers r settings now name)
      (PassName.follows r settings now name)
    refine (applyRule_beside hrule h ht r).bind fun t' u' ⟨g, hg, ht'⟩ => ?_
    exact ih hg ht'

end WikiHtml.Substitution
