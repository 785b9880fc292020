-- Runs of passes. A pass ends if there is a run of it, with the tree that the run ends with; it
-- leaves nothing that it would change, so that it changes nothing when it is run again.
import WikiHtml.Proofs.Substitution.Parents
import WikiHtml.Proofs.Tree.Grading
import WikiHtml.Substitution.Pass

namespace WikiHtml.Substitution

variable {ε : Type}

/-! ## Running passes -/

theorem passFuel_pos (r : Repository) (t : Tree) : 0 < passFuel r t := by
  have hway : 0 < t.size + r.pages.foldr (fun page nodes => page.2.size + 1 + nodes) 0 + 64 := by
    omega
  exact Nat.mul_pos (Nat.mul_pos hway hway) hway

/-- A rule gives the answer that it gives with enough fuel. -/
theorem applyRule_eq_page (rep : Repository) {rule : Rule Unit Event.Fault} {t : Tree} {fuel : Nat}
    (h : page rule fuel t () ≠ .error .outOfFuel) :
    applyRule rule rep t = (page rule fuel t ()).map Prod.fst := by
  have hdone := untilDone_of_lasts (fun m n h => page_lasts rule h t ()) h (passFuel_pos rep t)
  rw [applyRule, hdone]
  rcases page rule fuel t () with stop | ⟨t', s⟩ <;> rfl

/-- A rule for which no fuel is enough has no answer. -/
theorem applyRule_outOfFuel (rep : Repository) {rule : Rule Unit Event.Fault} {t : Tree}
    (h : ∀ fuel, page rule fuel t () = .error .outOfFuel) :
    applyRule rule rep t = .error .outOfFuel := by
  unfold applyRule
  cases hdone : untilDone (fun fuel => page rule fuel t ()) (passFuel rep t) with
  | none => rfl
  | some answer =>
    obtain ⟨fuel, rfl⟩ := ok_of_untilDone hdone
    rw [h]

/-- A pass gives the answer that it gives with enough fuel. -/
theorem apply_eq_page (rep : Repository) {pass : Pass} {t : Tree} {fuel : Nat}
    (h : page pass.rule fuel t () ≠ .error .outOfFuel) :
    pass.apply rep t = (page pass.rule fuel t ()).map Prod.fst :=
  applyRule_eq_page rep h

/-! ## Passes as callbacks -/

/-- A verdict as a move. -/
def Verdict.move : Verdict → Move
  | .keep => .keep
  | .delete => .delete
  | .put document => .replace document

/-- A pass as a callback. -/
def Pass.callback (pass : Pass) : Callback Unit Event.Fault := fun id t _ => do
  return ((← pass t id).move, ())

theorem callback_rule (pass : Pass) : pass.callback.rule = pass.rule := by
  funext id t s
  simp only [Callback.rule, Pass.callback, Pass.rule]
  rcases pass t id with cause | verdict
  · rfl
  · cases verdict <;> rfl

theorem pass_decided {pass : Pass} {id : NodeId} {t : Tree} {s s' : Unit} {m : Move} :
    pass.callback id t s = .ok (m, s') ↔ ∃ verdict, pass t id = .ok verdict ∧ m = verdict.move := by
  rcases hp : pass t id with cause | verdict
  · simp [Pass.callback, hp, bind, Except.bind]
  · simp [Pass.callback, hp, bind, Except.bind, pure, Except.pure, eq_comm]

/-! ## What a pass leaves -/

/-- What a pass keeps can be told from the element alone: it is done. Lists and pages are done, and
so is the top of every document that is put in. -/
structure Pass.Settles (pass : Pass) (done : Element Empty → Prop) : Prop where
  keep_iff : ∀ {t id}, pass t id = .ok .keep ↔ done (t.element id).bare
  put : ∀ {t id d}, pass t id = .ok (.put d) → done d.element.bare
  list : done (.list [])
  page : ∀ path, done (.wrap (.page path) none)

section

variable {pass : Pass} {done : Element Empty → Prop} {top : Option NodeId}

theorem bare_of_isList {α : Type} {e : Element α} (h : e.isList = true) : e.bare = .list [] := by
  cases e with
  | list members => rfl
  | _ => cases h

/-- The top of what a pass leaves in the place of a node is done. -/
theorem Pass.Settles.leads (h : pass.Settles done) {t t' : Tree} {o o' : Outline} {m : Move}
    {s s' : Unit} (hc : pass.callback o.id t s = .ok (m, s')) (hs : t'.Stands [] o')
    (hleads : m.Leads t t' o o') : done (t'.element o'.id).bare := by
  obtain ⟨verdict, hv, rfl⟩ := pass_decided.mp hc
  cases verdict with
  | keep =>
    obtain ⟨rfl, rfl⟩ := hleads
    exact h.keep_iff.mp hv
  | delete => exact hleads.elim
  | put d =>
    cases o' with
    | node id held =>
      have hdone := h.put hv
      rw [← hleads.2, Outline.id_node, (Grading.held_of_shown hs.spans hs.nodup).1] at hdone
      exact hdone

/-- After a run of a pass every node is done. -/
theorem run_settles (h : pass.Settles done) :
    (∀ {o above t s r t' s' visits}, Run pass.callback top o above t s r t' s' visits →
      ∀ o', r = some o' → ∀ x ∈ o'.ids, done (t'.element x).bare) ∧
    (∀ {p front rest above t s held' t' s' visits},
      RunHeld pass.callback top p front rest above t s held' t' s' visits →
      (∀ x ∈ front.flatMap Outline.ids, done (t.element x).bare) →
      ∀ x ∈ held'.flatMap Outline.ids, done (t'.element x).bare) := by
  have hstays : ∀ {t t' : Tree} {own : List NodeId} {x : Nat}, t.Changes t' own → x < t.size →
      done (t.element x).bare → done (t'.element x).bare := fun hc hx hd =>
    hc.toGrows.bare_eq hx ▸ hd
  refine run_induct ?_ ?_ ?_ ?_ ?_ ?_
  · intro id held held' above t t' s s' visits site hl hrest ih o' ho' x hx
    obtain rfl := Option.some.inj ho'
    rw [Outline.ids_node, List.mem_cons] at hx
    rcases hx with rfl | hx
    · refine hstays (run_changes.2 hrest).1 site.stands.spans.inside ?_
      rw [bare_of_isList hl]
      exact h.list
    · exact ih (by simp) x hx
  · intro o above t s s' m _ _ _ _ o' ho'
    cases ho'
  · intro o new held held' above t t₁ t' s s₁ s' m visits _ _ hc _ site' _ _ hleads hrest ih o' ho'
      x hx
    obtain rfl := Option.some.inj ho'
    rw [Outline.ids_node, List.mem_cons] at hx
    rcases hx with rfl | hx
    · exact hstays (run_changes.2 hrest).1 site'.stands.spans.inside
        (h.leads hc site'.stands hleads)
    · exact ih (by simp) x hx
  · intro p front above t s _ hfront
    exact hfront
  · intro p front rest held' o above t t₁ t' s s₁ s' r visits later hm hrun _ hr _ ih ih' hfront
    have hfill := (hm.fill hr).2.toGrows
    have hgrown := hm.grows_fill hr
    refine ih' fun x hx => ?_
    rw [List.flatMap_append, List.flatMap_singleton, List.mem_append] at hx
    rcases hx with hx | hx
    · have hlt := (hm.elsewhere (Or.inr (Or.inl hx))).1
      exact hfill.bare_eq hlt ▸ hfront x hx
    · rw [hgrown.bare_eq (hr.spans.lt_size x hx)]
      cases r with
      | some o' => exact ih o' rfl x hx
      | none =>
        simp only [patch, Outline.ids_node, List.flatMap_nil, List.mem_singleton] at hx ⊢
        rw [hx, Tree.addEmpty, Tree.element_add, if_pos rfl]
        exact h.list
  · intro p front rest held' o above t t₁ t' s s₁ s' visits later hm _ hl hch _ _ ih' hfront
    refine ih' fun x hx => ?_
    have hlt := (hm.elsewhere (Or.inr (Or.inl hx))).1
    exact (hm.drop hch hl).2.toGrows.bare_eq hlt ▸ hfront x hx

/-- A pass runs over nodes that are done and changes nothing. -/
theorem run_idle (h : pass.Settles done) {t : Tree} {o : Outline} {above : List NodeId}
    (hs : t.Site o above top) (hd : ∀ x ∈ o.ids, done (t.element x).bare) :
    ∃ visits, Run pass.callback top o above t () (some o) t () visits := by
  induction o using Outline.induct generalizing above with
  | node id held ih =>
    have hheld : ∀ rest front, t.Midway id front rest above top → (∀ c ∈ rest, c ∈ held) →
        ∃ visits, RunHeld pass.callback top id front rest above t () (front ++ rest) t ()
          visits := by
      intro rest
      induction rest with
      | nil =>
        intro front hm _
        exact ⟨[], by simpa using RunHeld.done hm⟩
      | cons c rest ihrest =>
        intro front hm hsub
        obtain ⟨visits, hrun⟩ := ih c (hsub c (by simp)) hm.site fun x hx =>
          hd x (Outline.mem_ids_of_held (o := .node id held) (hsub c (by simp)) hx)
        have hr : t.Regrown t c.ids c :=
          ⟨.refl t _, hm.site.stands.spans, hm.site.stands.nodup, fun x hx => Or.inl hx⟩
        have hself : t.refit id front.length c.id = t :=
          Tree.refit_self hm.child (hm.ahead c (by simp)).2
        have hnext := (hm.fill hr).1
        rw [hself] at hnext
        obtain ⟨later, hrest⟩ := ihrest (front ++ [c]) hnext fun d hdm => hsub d (by simp [hdm])
        refine ⟨visits ++ later, .filled hm hrun (by simp) hr ?_⟩
        simpa [patch, hself] using hrest
    obtain ⟨visits, hrest⟩ := hheld held [] hs.midway fun c hc => hc
    rw [List.nil_append] at hrest
    rcases hl : (t.element id).isList with _ | _
    · have hkeep : pass t id = .ok .keep := h.keep_iff.mpr (hd id (by simp [Outline.ids_node]))
      have hr : t.Regrown t (Outline.node id held).ids (.node id held) :=
        ⟨.refl t _, hs.stands.spans, hs.stands.nodup, fun x hx => Or.inl hx⟩
      exact ⟨_, .stays hs hl (pass_decided.mpr ⟨.keep, hkeep, rfl⟩)
        (by simp [Verdict.move, Move.take, Move.run]) hs hr rfl ⟨rfl, rfl⟩ hrest⟩
    · exact ⟨_, .list hs hl hrest⟩

end

/-! ## Whole trees -/

/-- A whole tree in good order, and what is below its top. -/
structure Whole (t : Tree) (o : Outline) : Prop where
  root : t.root = some o.id
  stands : t.Stands [] o
  loose : t.parent o.id = none

theorem Whole.rootDocument {t : Tree} {o : Outline} (hw : Whole t o) :
    t.rootDocument = t.shown o.id := by
  rw [Tree.rootDocument, hw.root, Tree.shown, Option.bind_some]

theorem ofDocument_whole (d : Document) :
    ∃ o, Whole (Tree.ofDocument d) o ∧ (Tree.ofDocument d).shown o.id = d := by
  obtain ⟨o, hroot, hs, hloose, hshown⟩ := Tree.ofDocument_stands d
  exact ⟨o, ⟨hroot, hs, hloose⟩, hshown⟩

section

variable {pass : Pass} {done P : Element Empty → Prop} {t t₁ t' : Tree} {o : Outline}
  {r : Option Outline} {visits : List Visit}

/-- A pass ends if there is a run of it. -/
theorem apply_of_run (rep : Repository) (hw : Whole t o)
    (hrun : Run pass.callback none o [] t () r t₁ () visits) :
    pass.apply rep t = .ok (cap t o.id r t₁).2 ∧
      ∃ fuel, page pass.callback.traced.rule fuel t ((), []) =
        .ok ((cap t o.id r t₁).2, (), visits) := by
  constructor
  · obtain ⟨fuel, hwalk⟩ := (walks_of_runs _ _).1 hrun
    have hpage := page_eq_cap hw.root (hwalk fuel (Nat.le_refl _))
    rw [callback_rule] at hpage
    have hne : page pass.rule fuel t () ≠ .error .outOfFuel := by rw [hpage]; nofun
    rw [apply_eq_page rep hne, hpage]
    rfl
  · have htraced := (noting_of_run (f := fun v => v)).1 hrun []
    rw [List.map_id', List.nil_append] at htraced
    obtain ⟨fuel, hwalk⟩ := (walks_of_runs _ _).1 htraced
    exact ⟨fuel, page_eq_cap hw.root (hwalk fuel (Nat.le_refl _))⟩

/-- A pass that ended made a run. -/
theorem run_of_apply {rep : Repository} (hw : Whole t o) (h : pass.apply rep t = .ok t') :
    ∃ r t₁ visits, Run pass.callback none o [] t () r t₁ () visits ∧
      t' = (cap t o.id r t₁).2 := by
  obtain ⟨fuel, hpage⟩ : ∃ fuel, page pass.rule fuel t () = .ok (t', ()) := by
    unfold Pass.apply applyRule at h
    split at h
    · rename_i t'' s hdone
      cases h
      exact ok_of_untilDone hdone
    · cases h
    · cases h
  rw [← callback_rule] at hpage
  have hpage' := hpage
  simp only [page, hw.root] at hpage'
  obtain ⟨⟨new, t₁, s₁⟩, hwalk, _⟩ := except_bind_ok hpage'
  have hsite : t.Site o [] none := hw.loose ▸ hw.stands.site
  obtain ⟨r, visits, rfl, hrun⟩ := (runs_of_walks pass.callback none fuel).1 hsite hwalk
  rw [page_eq_cap hw.root hwalk] at hpage
  cases hpage
  exact ⟨r, t₁, visits, hrun, rfl⟩

theorem pass_stands (hrun : Run pass.callback none o [] t () r t₁ () visits) :
    (patch t₁ r).2.Stands [] (patch t₁ r).1 := by
  refine run_stands hrun fun v hv => ?_
  obtain ⟨s, s', hc⟩ := run_decided.1 hrun v hv
  obtain ⟨verdict, _, hm⟩ := pass_decided.mp hc
  rw [hm]
  cases verdict <;> rfl

theorem whole_after (hrun : Run pass.callback none o [] t () r t₁ () visits) :
    Whole (cap t o.id r t₁).2 (cap t o.id r t₁).1 ∧
      ((cap t o.id r t₁).2.element (cap t o.id r t₁).1.id).isPage = true := by
  obtain ⟨hs, hroot, hloose, hpage⟩ := cap_stands t o.id (pass_stands hrun) (by simp)
  exact ⟨⟨hroot, hs, hloose⟩, hpage⟩

/-- What holds of all elements that a run leaves, of empty lists and of pages, holds of all elements
below the top. -/
theorem cap_all (hrun : Run pass.callback none o [] t () r t₁ () visits) (hlist : P (.list []))
    (hpage : ∀ path, P (.wrap (.page path) none))
    (h : ∀ o', r = some o' → ∀ x ∈ o'.ids, P (t₁.element x).bare) :
    ∀ x ∈ (cap t o.id r t₁).1.ids, P ((cap t o.id r t₁).2.element x).bare := by
  have hs := (pass_stands hrun).spans
  intro x hx
  rcases (mem_cap t o.id).mp hx with hx | ⟨hp, rfl⟩
  · rw [element_cap t o.id (hs.lt_size x hx)]
    cases r with
    | some o' => exact h o' rfl x hx
    | none =>
      simp only [patch, Outline.ids_node, List.flatMap_nil, List.mem_singleton] at hx ⊢
      rw [hx, Tree.addEmpty, Tree.element_add, if_pos rfl]
      exact hlist
  · rw [element_cap_new t o.id hp]
    exact hpage _

/-- A pass changes nothing where everything below a page is done. -/
theorem apply_idle (rep : Repository) (h : pass.Settles done) (hw : Whole t o)
    (hpage : (t.element o.id).isPage = true) (hd : ∀ x ∈ o.ids, done (t.element x).bare) :
    pass.apply rep t = .ok t := by
  have hsite : t.Site o [] none := hw.loose ▸ hw.stands.site
  obtain ⟨visits, hrun⟩ := run_idle h hsite hd
  have hsame : (cap t o.id (some o) t).2 = t := by
    simp only [cap, patch, onTop, hpage, if_true]
    exact Tree.setRoot_self hw.root hw.loose
  rw [(apply_of_run rep hw hrun).1, hsame]

/-- After a pass everything is done, and running it again changes nothing. -/
theorem done_after (rep : Repository) (h : pass.Settles done)
    (hrun : Run pass.callback none o [] t () r t₁ () visits) :
    (∀ x ∈ (cap t o.id r t₁).1.ids, done ((cap t o.id r t₁).2.element x).bare) ∧
      pass.apply rep (cap t o.id r t₁).2 = .ok (cap t o.id r t₁).2 := by
  obtain ⟨hwhole, hpage⟩ := whole_after hrun
  have hdone := cap_all hrun h.list h.page ((run_settles h).1 hrun)
  exact ⟨hdone, apply_idle rep h hwhole hpage hdone⟩

end

end WikiHtml.Substitution
