-- Walks and runs: a walk with an answer makes a run, and every run is made by a walk with enough
-- fuel.
import WikiHtml.Proofs.Substitution.Fuel
import WikiHtml.Proofs.Substitution.Run

namespace WikiHtml.Substitution

variable {σ ε : Type}

/-! ## Walks make runs -/

section

variable {c : Callback σ ε} {top : Option NodeId}

theorem run_regrown {o : Outline} {above : List NodeId} {t t' : Tree} {s s' : σ}
    {r : Option Outline} {visits : List Visit} (h : Run c top o above t s r t' s' visits) :
    t.Regrown (patch t' r).2 o.ids (patch t' r).1 :=
  regrown_patch (run_changes.1 h).1 (run_changes.1 h).2.2

/-- The table that is gone through, as it is now: what stands in the places that are done is new,
and in the other ones are the contents of the table as it was. -/
structure OnTable (t : Tree) (p : NodeId) (front rest : List Outline) (params : Option String)
    (rows : List (Row NodeId)) : Prop where
  element : t.element p = .table params (Element.refillRows rows ((front ++ rest).map Outline.id))
  length : (front ++ rest).length = (Element.contents rows).length
  ahead : (Element.contents rows).drop front.length = rest.map Outline.id

theorem OnTable.start {t : Tree} {p : NodeId} {rest : List Outline} {params : Option String}
    {rows : List (Row NodeId)} (h : t.element p = .table params rows)
    (hc : (t.element p).children = rest.map Outline.id) : OnTable t p [] rest params rows := by
  rw [h] at hc
  have hc' : Element.contents rows = rest.map Outline.id := hc
  refine ⟨?_, ?_, hc'⟩
  · rw [List.nil_append, ← hc', Element.refillRows_self, h]
  · rw [List.nil_append, hc', List.length_map]

theorem OnTable.places_ids {t : Tree} {p : NodeId} {front rest : List Outline}
    {params : Option String} {rows : List (Row NodeId)} (h : OnTable t p front rest params rows) :
    ((places rows).drop front.length).map (·.2.2) = rest.map Outline.id := by
  rw [List.map_drop, places_eq, placesDown_ids, h.ahead]

/-- Filling the next place of a table is the same as for any other holder. -/
theorem OnTable.fill {t t' : Tree} {p : NodeId} {front rest : List Outline} {o : Outline}
    {params : Option String} {rows : List (Row NodeId)} {place : Place} {more : List Place}
    (h : OnTable t p front (o :: rest) params rows) (he : t'.element p = t.element p)
    (hp : p < t'.size) (hk : (places rows).drop front.length = place :: more) (o' : Outline) :
    t'.setCellContent p place.1 place.2.1 (some o'.id) = t'.refit p front.length o'.id ∧
      OnTable (t'.refit p front.length o'.id) p (front ++ [o']) rest params rows ∧
      (places rows).drop (front ++ [o']).length = more := by
  have hget : (places rows)[front.length]? = some place := by
    rw [← List.head?_drop, hk, List.head?_cons]
  have hlen : ((front ++ o :: rest).map Outline.id).length = (Element.contents rows).length := by
    rw [List.length_map, h.length]
  have helement := he.trans h.element
  refine ⟨Tree.setCellContent_eq_refit helement hget hlen o'.id, ⟨?_, ?_, ?_⟩, ?_⟩
  · rw [Tree.element_refit hp, if_pos rfl, helement]
    simp only [Element.children, Element.refill, Element.contents_refillRows _ _ hlen,
      Element.refillRows_refillRows _ _ _ hlen]
    simp
  · simpa using h.length
  · rw [List.length_append, ← List.drop_drop, h.ahead]
    rfl
  · rw [List.length_append, ← List.drop_drop, hk]
    rfl

/-- The patched tree has its holder as it was, and the next place can be filled. -/
theorem Midway.patched {p : NodeId} {front rest : List Outline} {o : Outline}
    {above : List NodeId} {t t' : Tree} {s s' : σ} {r : Option Outline} {visits : List Visit}
    (hm : t.Midway p front (o :: rest) above top)
    (hrun : Run c top o (p :: above) t s r t' s' visits) :
    (patch t' r).2.element p = t.element p ∧ p < (patch t' r).2.size ∧
      ((patch t' r).2.refit p front.length (patch t' r).1.id).Midway p
        (front ++ [(patch t' r).1]) rest above top :=
  ⟨(hm.unchanged (run_regrown hrun).changes).1, (hm.child_after (run_regrown hrun).changes).2.2,
    (hm.fill (run_regrown hrun)).1⟩

theorem except_bind_ok {α β γ : Type} {a : Except γ α} {f : α → Except γ β} {b : β}
    (h : a.bind f = .ok b) : ∃ x, a = .ok x ∧ f x = .ok b := by
  rcases a with e | x
  · cases h
  · exact ⟨x, rfl, h⟩

theorem except_map_ok {α β γ : Type} {a : Except γ α} {f : α → β} {b : β}
    (h : a.map f = .ok b) : ∃ x, a = .ok x ∧ f x = b := by
  rcases a with e | x
  · cases h
  · exact ⟨x, rfl, Except.ok.inj h⟩

/-- With so much fuel, every walk through a part of a tree that has an answer makes a run. -/
def WalksRun (c : Callback σ ε) (top : Option NodeId) (fuel : Nat) : Prop :=
  ∀ {o above t s new t' s'}, t.Site o above top →
    walk c.rule fuel o.id t s = .ok (new, t', s') →
    ∃ r visits, r.map Outline.id = new ∧ Run c top o above t s r t' s' visits

/-- With so much fuel, every walk through a list that has an answer makes a run. -/
def MembersRun (c : Callback σ ε) (top : Option NodeId) (fuel : Nat) : Prop :=
  ∀ {p front rest above t s t' s'}, t.Midway p front rest above top →
    (t.element p).isList = true → walkMembers c.rule fuel p front.length t s = .ok (t', s') →
    ∃ held' visits, RunHeld c top p front rest above t s held' t' s' visits

/-- With so much fuel, every walk through a table that has an answer makes a run. -/
def PlacesRun (c : Callback σ ε) (top : Option NodeId) (fuel : Nat) : Prop :=
  ∀ {p front rest above t s t' s' params rows}, t.Midway p front rest above top →
    OnTable t p front rest params rows →
    walkPlaces c.rule fuel p ((places rows).drop front.length) t s = .ok (t', s') →
    ∃ held' visits, RunHeld c top p front rest above t s held' t' s' visits

variable {fuel : Nat}

theorem members_eq {t : Tree} {p : NodeId} (h : (t.element p).isList = true) :
    t.members p = (t.element p).children := by
  unfold Tree.members
  cases he : t.element p with
  | list members => rfl
  | _ => rw [he] at h; cases h

theorem membersRun_succ (hw : WalksRun c top fuel) (hms : MembersRun c top fuel) :
    MembersRun c top (fuel + 1) := by
  intro p front rest above t s t' s' hm hl h
  rw [walkMembers_succ, members_eq hl, hm.spans.children] at h
  rcases rest with _ | ⟨o, rest⟩
  · rw [List.getElem?_eq_none (by simp)] at h
    cases h
    exact ⟨front, [], .done hm⟩
  · have hget : ((front ++ o :: rest).map Outline.id)[front.length]? = some o.id := by simp
    rw [hget] at h
    obtain ⟨⟨new, t₁, s₁⟩, hwalk, h⟩ := except_bind_ok h
    obtain ⟨r, visits, rfl, hrun⟩ := hw hm.site hwalk
    have hch := (run_changes.1 hrun).1
    cases r with
    | none =>
      obtain ⟨hmid, hc⟩ := hm.drop hch hl
      obtain ⟨held', later, hrest⟩ := hms hmid ((hc.isList_eq hm.inside).trans hl) h
      exact ⟨held', _, .dropped hm hrun hl hch hrest⟩
    | some o' =>
      obtain ⟨hmid, hc⟩ := hm.fill (run_regrown hrun)
      have hl₁ : (t₁.element p).isList = true := (hm.unchanged hch).1 ▸ hl
      have h' : walkMembers c.rule fuel p (front ++ [o']).length
          (t₁.refit p front.length o'.id) s₁ = .ok (t', s') := by
        rw [← Tree.listSet_eq_refit hl₁, List.length_append]
        exact h
      obtain ⟨held', later, hrest⟩ := hms hmid ((hc.isList_eq hm.inside).trans hl) h'
      exact ⟨held', _, .filled hm hrun (by simp) (run_regrown hrun) hrest⟩

theorem placesRun_succ (hw : WalksRun c top fuel) (hps : PlacesRun c top fuel) :
    PlacesRun c top (fuel + 1) := by
  intro p front rest above t s t' s' params rows hm ht h
  have hids := ht.places_ids
  rcases hpl : (places rows).drop front.length with _ | ⟨place, more⟩
  · rw [hpl, List.map_nil, eq_comm, List.map_eq_nil_iff] at hids
    subst hids
    rw [hpl, walkPlaces] at h
    cases h
    exact ⟨front, [], .done hm⟩
  · rcases rest with _ | ⟨o, rest⟩
    · simp [hpl] at hids
    · rw [hpl, walkPlaces_cons] at h
      rw [hpl, List.map_cons, List.map_cons, List.cons.injEq] at hids
      rw [hids.1] at h
      obtain ⟨⟨new, t₁, s₁⟩, hwalk, h⟩ := except_bind_ok h
      obtain ⟨r, visits, rfl, hrun⟩ := hw hm.site hwalk
      obtain ⟨helement, hp, hmid⟩ := Midway.patched hm hrun
      obtain ⟨hset, ht', hmore⟩ := ht.fill helement hp hpl (patch t₁ r).1
      simp only [orEmpty_eq_patch, hset] at h
      rw [← hmore] at h
      obtain ⟨held', later, hrest⟩ := hps hmid ht' h
      refine ⟨held', _, .filled hm hrun (fun _ => ?_) (run_regrown hrun) hrest⟩
      rw [ht.element]
      rfl

theorem descend_run (hw : WalksRun c top fuel) (hms : MembersRun c top fuel)
    (hps : PlacesRun c top fuel) {p : NodeId} {held : List Outline} {above : List NodeId}
    {t t' : Tree} {s s' : σ} (hm : t.Midway p [] held above top)
    (h : descend c.rule fuel p t s = .ok (t', s')) :
    ∃ held' visits, RunHeld c top p [] held above t s held' t' s' visits := by
  have hchildren : (t.element p).children = held.map Outline.id := hm.spans.children
  unfold descend at h
  cases he : t.element p with
  | list members =>
    rw [he] at h
    exact hms hm (by rw [he]; rfl) h
  | wrap w child =>
    rw [he] at h hchildren
    cases child with
    | none =>
      cases h
      obtain rfl : held = [] := by simpa [Element.children] using hchildren.symm
      exact ⟨[], [], .done hm⟩
    | some child =>
      obtain ⟨o, rfl, rfl⟩ : ∃ o, held = [o] ∧ o.id = child := by
        simpa [Element.children, List.map_eq_singleton_iff, eq_comm] using hchildren
      obtain ⟨⟨new, t₁, s₁⟩, hwalk, h⟩ := except_bind_ok h
      obtain ⟨r, visits, rfl, hrun⟩ := hw hm.site hwalk
      obtain ⟨helement, _, hmid⟩ := Midway.patched hm hrun
      simp only [orEmpty_eq_patch, Tree.setChild_eq_refit (helement.trans he)] at h
      cases h
      exact ⟨_, _, .filled hm hrun (fun _ => by rw [he]; rfl) (run_regrown hrun) (.done hmid)⟩
  | table params rows =>
    rw [he] at h
    exact hps hm (.start he hchildren) h
  | leaf l =>
    rw [he] at h hchildren
    cases h
    obtain rfl : held = [] := by simpa [Element.children] using hchildren.symm
    exact ⟨[], [], .done hm⟩

theorem walksRun_succ (hw : WalksRun c top fuel) (hms : MembersRun c top fuel)
    (hps : PlacesRun c top fuel) : WalksRun c top (fuel + 1) := by
  intro o above t s new t' s' hs h
  rw [walk_succ] at h
  obtain ⟨answer, hoffer, h⟩ := except_bind_ok h
  rcases hl : (t.element o.id).isList with _ | _
  · rcases hc : c o.id t s with cause | ⟨m, s₁⟩
    · rw [offer_fault hl hc] at hoffer
      cases hoffer
    · rw [offer_taken hl hc] at hoffer
      rcases htake : m.take t o.id with ⟨_ | new', t₁⟩
      · obtain rfl := take_none htake
        rw [htake] at hoffer
        cases hoffer
        cases h
        exact ⟨none, _, rfl, .gone hs hl hc htake⟩
      · obtain ⟨⟨id, held⟩, rfl, hsite, hregrown, hroot, hleads⟩ := take_some hs htake
        rw [htake] at hoffer
        cases hoffer
        obtain ⟨⟨t₂, s₂⟩, hdescend, h⟩ := except_map_ok h
        cases h
        obtain ⟨held', visits, hrest⟩ := descend_run hw hms hps hsite.midway hdescend
        exact ⟨_, _, rfl, .stays hs hl hc htake hsite hregrown hroot hleads hrest⟩
  · rw [offer_list s hl] at hoffer
    cases hoffer
    obtain ⟨⟨t₂, s₂⟩, hdescend, h⟩ := except_map_ok h
    cases h
    obtain ⟨id, held⟩ := o
    obtain ⟨held', visits, hrest⟩ := descend_run hw hms hps hs.midway hdescend
    exact ⟨_, _, rfl, .list hs hl hrest⟩

/-- Every walk with an answer makes a run. -/
theorem runs_of_walks (c : Callback σ ε) (top : Option NodeId) (fuel : Nat) :
    WalksRun c top fuel ∧ MembersRun c top fuel ∧ PlacesRun c top fuel := by
  induction fuel with
  | zero =>
    refine ⟨fun _ h => ?_, fun _ _ h => ?_, fun _ _ h => ?_⟩
    · rw [walk] at h; cases h
    · rw [walkMembers] at h; cases h
    · rw [walkPlaces] at h; cases h
  | succ fuel ih =>
    obtain ⟨hw, hms, hps⟩ := ih
    exact ⟨walksRun_succ hw hms hps, membersRun_succ hw hms, placesRun_succ hw hps⟩

/-! ## Runs are made by walks -/

/-- With so much fuel, a walk through the places of a holder makes the changes of a run, whatever
kind of element the holder is. -/
structure HeldWalks (c : Callback σ ε) (fuel : Nat) (p : NodeId) (front rest : List Outline)
    (t : Tree) (s : σ) (t' : Tree) (s' : σ) : Prop where
  list : (t.element p).isList = true →
    walkMembers c.rule fuel p front.length t s = .ok (t', s')
  table : ∀ params rows, OnTable t p front rest params rows →
    walkPlaces c.rule fuel p ((places rows).drop front.length) t s = .ok (t', s')
  single : ∀ o, rest = [o] → (t.element p).isList = false → ∃ r t₁,
    walk c.rule fuel o.id t s = .ok (r.map Outline.id, t₁, s') ∧
      (patch t₁ r).2.element p = t.element p ∧
      t' = (patch t₁ r).2.refit p front.length (patch t₁ r).1.id
  none : rest = [] → t' = t ∧ s' = s

section

variable {p : NodeId} {front rest held : List Outline} {o : Outline} {above : List NodeId}
  {t t₁ t' : Tree} {s s₁ s' : σ} {r : Option Outline} {visits : List Visit}

theorem HeldWalks.descend (h : HeldWalks c fuel p [] held t s t' s')
    (hm : t.Midway p [] held above top) : descend c.rule fuel p t s = .ok (t', s') := by
  have hchildren : (t.element p).children = held.map Outline.id := hm.spans.children
  unfold Substitution.descend
  cases he : t.element p with
  | list members => exact h.list (by rw [he]; rfl)
  | wrap w child =>
    rw [he] at hchildren
    cases child with
    | none =>
      obtain rfl : held = [] := by simpa [Element.children] using hchildren.symm
      obtain ⟨rfl, rfl⟩ := h.none rfl
      rfl
    | some child =>
      obtain ⟨o, rfl, rfl⟩ : ∃ o, held = [o] ∧ o.id = child := by
        simpa [Element.children, List.map_eq_singleton_iff, eq_comm] using hchildren
      obtain ⟨r, t₁, hwalk, hsame, rfl⟩ := h.single o rfl (by rw [he]; rfl)
      have hset := Tree.setChild_eq_refit (hsame.trans he)
      simp only [hwalk, bind, Except.bind, orEmpty_eq_patch, hset]
      rfl
  | table params rows =>
    exact h.table params rows (.start he hchildren)
  | leaf l =>
    rw [he] at hchildren
    obtain rfl : held = [] := by simpa [Element.children] using hchildren.symm
    obtain ⟨rfl, rfl⟩ := h.none rfl
    rfl

theorem heldWalks_done (hm : t.Midway p front [] above top) :
    HeldWalks c (fuel + 1) p front [] t s t s where
  list hl := by
    have hend : (t.element p).children.length ≤ front.length := by
      rw [hm.spans.children]
      simp
    rw [walkMembers_succ, members_eq hl, List.getElem?_eq_none hend]
  table params rows ht := by
    have hids := ht.places_ids
    rw [List.map_nil, List.map_eq_nil_iff] at hids
    rw [hids, walkPlaces]
  single o ho := by simp at ho
  none _ := ⟨rfl, rfl⟩

theorem heldWalks_filled (hm : t.Midway p front (o :: rest) above top)
    (hrun : Run c top o (p :: above) t s r t₁ s₁ visits)
    (hr : r = none → (t.element p).isList = false)
    (hwalk : walk c.rule fuel o.id t s = .ok (r.map Outline.id, t₁, s₁))
    (hrest : HeldWalks c fuel p (front ++ [(patch t₁ r).1]) rest
      ((patch t₁ r).2.refit p front.length (patch t₁ r).1.id) s₁ t' s') :
    HeldWalks c (fuel + 1) p front (o :: rest) t s t' s' := by
  obtain ⟨helement, hp, hmid⟩ := Midway.patched hm hrun
  have hgrows := (hm.fill (run_regrown hrun)).2.toGrows
  refine ⟨fun hl => ?_, fun params rows ht => ?_, fun o' ho' hl => ?_, by simp⟩
  · cases r with
    | none => rw [hr rfl] at hl; cases hl
    | some o' =>
      have hl₁ : (t₁.element p).isList = true := helement ▸ hl
      have hnext := hrest.list ((hgrows.isList_eq hm.inside).trans hl)
      rw [walkMembers_succ, members_eq hl, hm.child]
      simp only [hwalk]
      simpa [Except.bind, Tree.listSet_eq_refit hl₁, patch] using hnext
  · have hids := ht.places_ids
    rcases hpl : (places rows).drop front.length with _ | ⟨place, more⟩
    · simp [hpl] at hids
    · rw [hpl, List.map_cons, List.map_cons, List.cons.injEq] at hids
      obtain ⟨hset, ht', hmore⟩ := ht.fill helement hp hpl (patch t₁ r).1
      have hnext := hrest.table params rows ht'
      rw [hmore] at hnext
      rw [walkPlaces_cons, hids.1, hwalk]
      simpa [Except.bind, orEmpty_eq_patch, hset] using hnext
  · obtain ⟨rfl, rfl⟩ : o = o' ∧ rest = [] := by simpa using ho'
    obtain ⟨rfl, rfl⟩ := hrest.none rfl
    exact ⟨r, t₁, walk_ok_succ hwalk, helement, rfl⟩

theorem heldWalks_dropped (hm : t.Midway p front (o :: rest) above top)
    (hl : (t.element p).isList = true) (hc : t.Changes t₁ o.ids)
    (hwalk : walk c.rule fuel o.id t s = .ok (none, t₁, s₁))
    (hrest : HeldWalks c fuel p front rest (t₁.takeOut p front.length) s₁ t' s') :
    HeldWalks c (fuel + 1) p front (o :: rest) t s t' s' where
  list _ := by
    have hgrows := (hm.drop hc hl).2.toGrows
    rw [walkMembers_succ, members_eq hl, hm.child]
    simp only [hwalk]
    exact hrest.list ((hgrows.isList_eq hm.inside).trans hl)
  table params rows ht := by
    rw [ht.element] at hl
    cases hl
  single o' _ hn := by
    rw [hl] at hn
    cases hn
  none h := by simp at h

end

/-- Every run is made by every walk with enough fuel. -/
theorem walks_of_runs (c : Callback σ ε) (top : Option NodeId) :
    (∀ {o above t s r t' s' visits}, Run c top o above t s r t' s' visits →
      Answers (fun fuel => walk c.rule fuel o.id t s) (r.map Outline.id, t', s')) ∧
    (∀ {p front rest above t s held' t' s' visits},
      RunHeld c top p front rest above t s held' t' s' visits →
      ∃ fuel, ∀ n, fuel ≤ n → HeldWalks c n p front rest t s t' s') := by
  have hsucc : ∀ {fuel n : Nat}, fuel + 1 ≤ n → ∃ m, n = m + 1 ∧ fuel ≤ m := fun {fuel n} h =>
    ⟨n - 1, by omega, by omega⟩
  refine run_induct ?_ ?_ ?_ ?_ ?_ ?_
  · rintro id held held' above t t' s s' visits site hl _ ⟨fuel, ih⟩
    refine ⟨fuel + 1, fun n hn => ?_⟩
    obtain ⟨m, rfl, hm⟩ := hsucc hn
    dsimp only
    rw [walk_succ, Outline.id_node, offer_list s hl]
    simp only [Except.bind, (ih m hm).descend site.midway]
    rfl
  · intro o above t s s' m site hl hc ht
    refine ⟨1, fun n hn => ?_⟩
    obtain ⟨k, rfl, _⟩ := hsucc hn
    dsimp only
    rw [walk_succ, offer_taken hl hc, ht]
    rfl
  · rintro o new held held' above t t₁ t' s s₁ s' m visits _ hl hc ht site' _ _ _ _ ⟨fuel, ih⟩
    refine ⟨fuel + 1, fun n hn => ?_⟩
    obtain ⟨k, rfl, hk⟩ := hsucc hn
    dsimp only
    rw [walk_succ, offer_taken hl hc, ht]
    simp only [Except.bind, (ih k hk).descend site'.midway]
    rfl
  · intro p front above t s hm
    refine ⟨1, fun n hn => ?_⟩
    obtain ⟨k, rfl, _⟩ := hsucc hn
    exact heldWalks_done hm
  · rintro p front rest held' o above t t₁ t' s s₁ s' r visits later hm hrun hr _ _ ⟨f, ih⟩
      ⟨f', ih'⟩
    refine ⟨max f f' + 1, fun n hn => ?_⟩
    obtain ⟨k, rfl, hk⟩ := hsucc hn
    exact heldWalks_filled hm hrun hr (ih k (by omega)) (ih' k (by omega))
  · rintro p front rest held' o above t t₁ t' s s₁ s' visits later hm _ hl hc _ ⟨f, ih⟩ ⟨f', ih'⟩
    refine ⟨max f f' + 1, fun n hn => ?_⟩
    obtain ⟨k, rfl, hk⟩ := hsucc hn
    exact heldWalks_dropped hm hl hc (ih k (by omega)) (ih' k (by omega))

end

end WikiHtml.Substitution
