-- Runs of passes over graded trees. Where a pass puts in for a node what is of the class of the node,
-- the nodes keep their classes, and the new ones get some; and where that is of a lower level below
-- its top, the pass ends.
import WikiHtml.Proofs.Substitution.PassRun

namespace WikiHtml.Substitution

variable {ι : Type} {g : Grading ι} {γ γ' γ₁ : NodeId → Option ι} {t t' t₁ : Tree} {i j : ι}

/-! ## Classes in a growing tree -/

/-- The classes of the nodes that were there stay, and new nodes may get one. -/
structure Keeps (g : Grading ι) (γ γ' : NodeId → Option ι) (t t' : Tree) : Prop where
  grows : t.Grows t'
  same : ∀ x < t.size, γ' x = γ x
  graded : g.Graded γ' t'

theorem Keeps.refl (h : g.Graded γ t) : Keeps g γ γ t t :=
  ⟨.refl t, fun _ _ => rfl, h⟩

theorem Keeps.trans {t'' : Tree} {γ'' : NodeId → Option ι} (h : Keeps g γ γ' t t')
    (h' : Keeps g γ' γ'' t' t'') : Keeps g γ γ'' t t'' where
  grows := h.grows.trans h'.grows
  same x hx := (h'.same x (Nat.lt_of_lt_of_le hx h.grows.size_le)).trans (h.same x hx)
  graded := h'.graded

/-- The nodes above a node have classes that go down to that of the node, from `base` at the top. -/
def Lineage (g : Grading ι) (γ : NodeId → Option ι) (t : Tree) (base : ι) :
    ι → List NodeId → Prop
  | i, [] => i = base
  | i, h :: hs => ∃ j, γ h = some j ∧ g.holds (t.element h).bare j i ∧ Lineage g γ t base j hs

theorem Lineage.keeps {base : ι} {above : List NodeId} (h : Lineage g γ t base i above)
    (hg : g.Graded γ t) (hk : Keeps g γ γ' t t') : Lineage g γ' t' base i above := by
  induction above generalizing i with
  | nil => exact h
  | cons a as ih =>
    obtain ⟨j, hj, hh, hrest⟩ := h
    have hlt := hg.inside hj
    exact ⟨j, (hk.same a hlt).trans hj, hk.grows.bare_eq hlt ▸ hh, ih hrest⟩

theorem Keeps.none_of_le (h : g.Graded γ t) {x : Nat} (hx : t.size ≤ x) : γ x = none := by
  rcases hγ : γ x with _ | i
  · rfl
  · exact absurd (h.inside hγ) (Nat.not_lt.mpr hx)

/-- A planted document gets classes, those below its top with `P`. -/
theorem Keeps.planted {P : ι → Prop} {o : Outline} {d : Document} (hg : g.Graded γ t)
    (hp : t.Planted t' [o] [d]) (h : g.Over P i d) :
    ∃ γ', Keeps g γ γ' t t' ∧ γ' o.id = some i ∧
      ∀ c ∈ (t'.element o.id).children, ∃ j, γ' c = some j ∧ P j := by
  have hs := hp.stands o (by simp)
  have hfresh : ∀ x : Nat, x ∈ o.ids → t.size ≤ x := fun x hx =>
    ((hp.fresh x).mp (by simpa using hx)).1
  have hshown : t'.shown o.id = d := by simpa using hp.shown
  cases o with
  | node id held =>
    obtain ⟨γ₂, hg₂, hd₂, htop, hheld⟩ :=
      Grading.graded_over hs.spans hs.nodup (hshown.symm ▸ h)
    have hold : g.Graded γ t' := hg.congr hp.changes.size_le fun x i hx =>
      ⟨hp.changes.element_eq x (hg.inside hx) (by simp), hp.changes.span_eq x (hg.inside hx)⟩
    have hnone : ∀ x i, γ₂ x = some i → γ x = none := fun x i hx =>
      Keeps.none_of_le hg (hfresh x (hd₂ x i hx))
    have hnew : ∀ x i, γ₂ x = some i → (γ x).or (γ₂ x) = some i := fun x i hx => by
      rw [hnone x i hx, Option.none_or, hx]
    refine ⟨_, ⟨hp.changes.toGrows, fun x hx => ?_, hold.merge hg₂ hnone⟩, hnew id i htop,
      fun c hc => ?_⟩
    · rcases h₂ : γ₂ x with _ | j
      · rw [Option.or_none]
      · exact absurd (hfresh x (hd₂ x j h₂)) (Nat.not_le.mpr hx)
    · obtain ⟨j, hj, hl⟩ := hheld c hc
      exact ⟨j, hnew c j hj, hl⟩

/-- What is left of a place, or the empty list that comes there, is of the class of the place. -/
theorem Keeps.patched {r : Option Outline} (hg : g.Graded γ t)
    (hr : ∀ o, r = some o → γ o.id = some i) :
    ∃ γ', Keeps g γ γ' t (patch t r).2 ∧ γ' (patch t r).1.id = some i := by
  cases r with
  | some o => exact ⟨γ, .refl hg, hr o rfl⟩
  | none =>
    refine ⟨_, ⟨grows_patch t none, fun x hx => ?_, hg.addEmpty i⟩, if_pos rfl⟩
    exact if_neg (Nat.ne_of_lt hx)

theorem Keeps.setParent (hg : g.Graded γ t) (x : NodeId) (p : Option NodeId) :
    Keeps g γ γ t (t.setParent x p) where
  grows := ⟨by simp, by simp, fun y _ => by rw [Tree.element_setParent]; exact .refl _⟩
  same _ _ := rfl
  graded := hg.congr (by simp) (by simp)

/-! ## What passes put in -/

/-- What a pass puts in for a node of a class is a document of the class; `puts` tells more about
it. -/
structure Pass.Fits (pass : Pass) (g : Grading ι) (base : ι) (puts : ι → Document → Prop) :
    Prop where
  put : ∀ {γ t o above i d}, t.Site o above none → g.Graded γ t → γ o.id = some i →
    Lineage g γ t base i above → pass t o.id = .ok (.put d) → puts i d
  of : ∀ {i d}, puts i d → g.Of i d

/-- What a pass puts in for a node of a class fits the class and is of lower levels below its
top. -/
structure Pass.Conforms (pass : Pass) (g : Grading ι) (base : ι) (puts : ι → Document → Prop) :
    Prop where
  put : ∀ {γ t o above i d}, t.Site o above none → g.Graded γ t → γ o.id = some i →
    Lineage g γ t base i above → pass t o.id = .ok (.put d) → puts i d
  below : ∀ {i d}, puts i d → g.Below i d

theorem Pass.Conforms.fits {pass : Pass} {base : ι} {puts : ι → Document → Prop}
    (h : pass.Conforms g base puts) : pass.Fits g base puts :=
  ⟨h.put, fun hputs => (h.below hputs).of⟩

/-- Where a document was put in, its top is of a class that it was put in for. -/
def Answered (puts : ι → Document → Prop) (γ : NodeId → Option ι) (t : Tree) (v : Visit) : Prop :=
  ∀ d, v.move = .replace d →
    ∃ i, γ (v.tree.addDocument d).1 = some i ∧ puts i d ∧
      (t.element (v.tree.addDocument d).1).bare = d.element.bare

theorem Answered.keeps {puts : ι → Document → Prop} {v : Visit} (h : Answered puts γ t v)
    (hg : g.Graded γ t) (hk : Keeps g γ γ' t t') : Answered puts γ' t' v := by
  intro d hd
  obtain ⟨i, hi, hputs, hb⟩ := h d hd
  have hlt := hg.inside hi
  exact ⟨i, (hk.same _ hlt).trans hi, hputs, (hk.grows.bare_eq hlt).trans hb⟩

section

variable {pass : Pass} {base : ι} {puts : ι → Document → Prop}

/-- A node that takes the place of an offered one is of the class of that one. If it is another
node, what it holds is of classes with `P`, where that holds of what the pass puts in. -/
theorem take_graded (hp : pass.Fits g base puts) {P : ι → Prop} {o : Outline}
    {above : List NodeId} (hP : ∀ d, puts i d → g.Over P i d)
    (hs : t.Site o above none) (hg : g.Graded γ t) (hi : γ o.id = some i)
    (hl : Lineage g γ t base i above) {s s' : Unit} {m : Move}
    (hc : pass.callback o.id t s = .ok (m, s')) {new : NodeId}
    (ht : m.take t o.id = (some new, t₁)) :
    ∃ γ₁, Keeps g γ γ₁ t t₁ ∧ γ₁ new = some i ∧ Answered puts γ₁ t₁ ⟨t, o.id, m⟩ ∧
      (m = .keep ∨ ∀ c ∈ (t₁.element new).children, ∃ j, γ₁ c = some j ∧ P j) := by
  obtain ⟨verdict, hv, rfl⟩ := pass_decided.mp hc
  cases verdict with
  | keep =>
    simp only [Verdict.move, Move.take, Move.run, if_true, Prod.mk.injEq, Option.some.injEq] at ht
    obtain ⟨rfl, rfl⟩ := ht
    have hkept : Answered puts γ t ⟨t, o.id, .keep⟩ := fun d hd => by cases hd
    exact ⟨γ, .refl hg, hi, hkept, Or.inl rfl⟩
  | delete => simp [Verdict.move, Move.take, Move.run] at ht
  | put d =>
    have hputs := hp.put hs hg hi hl hv
    obtain ⟨o', hid, hplanted⟩ := t.addDocument_planted d
    obtain ⟨γ₁, hk, htop, hheld⟩ := Keeps.planted hg hplanted (hP d hputs)
    have hin : o.id < t.size := hs.stands.spans.inside
    have hne : (t.addDocument d).1 ≠ o.id := by
      have hfresh := ((hplanted.fresh o'.id).mp (by simp [o'.id_mem_ids])).1
      rw [← hid]
      exact Nat.ne_of_gt (Nat.lt_of_lt_of_le hin hfresh)
    simp only [Verdict.move, Move.take, Move.run, if_neg hne, Prod.mk.injEq,
      Option.some.injEq] at ht
    obtain ⟨rfl, rfl⟩ := ht
    have hset := Keeps.setParent hk.graded (t.addDocument d).1 (t.parent o.id)
    rw [hid] at htop hheld
    refine ⟨γ₁, hk.trans hset, htop, fun d' hd' => ?_, Or.inr fun c hcm => ?_⟩
    · obtain rfl : d = d' := Move.replace.inj hd'
      refine ⟨i, htop, hputs, ?_⟩
      have hstands := hplanted.stands o' (by simp)
      have hshown : (t.addDocument d).2.shown o'.id = d := by simpa using hplanted.shown
      cases o' with
      | node id held =>
        have hbare := (Grading.held_of_shown hstands.spans hstands.nodup).1
        rw [Outline.id_node] at hid hshown
        rw [Tree.element_setParent, ← hid, ← hbare, hshown]
    · rw [Tree.element_setParent] at hcm
      exact hheld c hcm

section

variable {p : NodeId} {front rest : List Outline} {o : Outline} {above : List NodeId}
  {r : Option Outline}

/-- The next place of a holder has a class. -/
theorem class_of_next (hm : t.Midway p front (o :: rest) above none) (hg : g.Graded γ t)
    (hi : γ p = some i) (hl : Lineage g γ t base i above) :
    ∃ j, γ o.id = some j ∧ g.holds (t.element p).bare i j ∧ Lineage g γ t base j (p :: above) := by
  obtain ⟨j, hj, hh⟩ := hg.holds hi (List.mem_of_getElem? hm.child)
  exact ⟨j, hj, hh, i, hi, hh, hl⟩

/-- Classes stay where a place is filled. -/
theorem Keeps.fill (hm : t.Midway p front (o :: rest) above none) (hk : Keeps g γ γ₁ t t₁)
    (hj : γ o.id = some j) (hr : ∀ o', r = some o' → γ₁ o'.id = some j)
    (hgrown : t.Regrown (patch t₁ r).2 o.ids (patch t₁ r).1) :
    ∃ γ', Keeps g γ₁ γ' t₁ ((patch t₁ r).2.refit p front.length (patch t₁ r).1.id) := by
  obtain ⟨γ', hpatch, htop⟩ := Keeps.patched hk.graded hr
  obtain ⟨hchild, hold, hp⟩ := hm.child_after hgrown.changes
  have hsame : γ' o.id = some j := by
    have hlt : o.id < t.size := hm.site.stands.spans.inside
    rw [hpatch.same _ (Nat.lt_of_lt_of_le hlt hk.grows.size_le), hk.same _ hlt, hj]
  refine ⟨γ', hpatch.trans ⟨hm.grows_fill hgrown, fun _ _ => rfl, ?_⟩⟩
  exact hpatch.graded.refit hp hchild (htop.trans hsame.symm)

/-- Classes stay where a member is taken out. -/
theorem Keeps.drop (hm : t.Midway p front (o :: rest) above none) (hg : g.Graded γ₁ t₁)
    (hc : t.Changes t₁ o.ids) (hl : (t.element p).isList = true) :
    Keeps g γ₁ γ₁ t₁ (t₁.takeOut p front.length) := by
  obtain ⟨hchild, _, hp⟩ := hm.child_after hc
  exact ⟨hm.grows_drop hc hl, fun _ _ => rfl,
    hg.takeOut hp ((hm.unchanged hc).1 ▸ hl) hchild⟩

end

/-- In a run over a graded tree all nodes keep their classes, and what is left of a part is of the
class of the part. -/
theorem run_graded (hp : pass.Fits g base puts) :
    (∀ {o above t s r t' s' visits}, Run pass.callback none o above t s r t' s' visits →
      ∀ γ i, g.Graded γ t → γ o.id = some i → Lineage g γ t base i above →
      ∃ γ', Keeps g γ γ' t t' ∧ (∀ o', r = some o' → γ' o'.id = some i) ∧
        ∀ v ∈ visits, Answered puts γ' t' v) ∧
    (∀ {p front rest above t s held' t' s' visits},
      RunHeld pass.callback none p front rest above t s held' t' s' visits →
      ∀ γ i, g.Graded γ t → γ p = some i → Lineage g γ t base i above →
      ∃ γ', Keeps g γ γ' t t' ∧ ∀ v ∈ visits, Answered puts γ' t' v) := by
  refine run_induct ?_ ?_ ?_ ?_ ?_ ?_
  · intro id held held' above t t' s s' visits site _ _ ih γ i hg hi hl
    obtain ⟨γ', hk, hv⟩ := ih γ i hg hi hl
    refine ⟨γ', hk, fun o' ho' => ?_, hv⟩
    obtain rfl := Option.some.inj ho'
    exact (hk.same id site.stands.spans.inside).trans hi
  · intro o above t s s' m _ _ _ ht γ i hg _ _
    refine ⟨γ, .refl hg, fun _ h => (by cases h), fun v hv d hd => ?_⟩
    obtain rfl := List.mem_singleton.mp hv
    obtain rfl : m = .replace d := hd
    simp [Move.take, Move.run] at ht
  · intro o new held held' above t t₁ t' s s₁ s' m visits site _ hc ht site' _ _ _ _ ih γ i hg hi hl
    obtain ⟨γ₁, hk, hnew, hv, _⟩ :=
      take_graded hp (fun d hd => (hp.of hd).over) site hg hi hl hc ht
    obtain ⟨γ', hk', hvs⟩ := ih γ₁ i hk.graded hnew (hl.keeps hg hk)
    refine ⟨γ', hk.trans hk', fun o' ho' => ?_, fun v hm => ?_⟩
    · obtain rfl := Option.some.inj ho'
      exact (hk'.same new site'.stands.spans.inside).trans hnew
    · rcases List.mem_cons.mp hm with rfl | hm
      · exact hv.keeps hk.graded hk'
      · exact hvs v hm
  · intro p front above t s _ γ i hg _ _
    exact ⟨γ, .refl hg, by simp⟩
  · intro p front rest held' o above t t₁ t' s s₁ s' r visits later hm _ _ hr _ ih ih' γ i hg hi hl
    obtain ⟨j, hj, _, hlj⟩ := class_of_next hm hg hi hl
    obtain ⟨γ₁, hk₁, hr₁, hv⟩ := ih γ j hg hj hlj
    obtain ⟨γ₂, hk₂⟩ := Keeps.fill hm hk₁ hj hr₁ hr
    have hk := hk₁.trans hk₂
    obtain ⟨γ', hk', hv'⟩ := ih' γ₂ i hk.graded ((hk.same p hm.inside).trans hi) (hl.keeps hg hk)
    refine ⟨γ', hk.trans hk', fun v hmem => ?_⟩
    rcases List.mem_append.mp hmem with hmem | hmem
    · exact (hv v hmem).keeps hk₁.graded (hk₂.trans hk')
    · exact hv' v hmem
  · intro p front rest held' o above t t₁ t' s s₁ s' visits later hm _ hlist hch _ ih ih' γ i hg hi
      hl
    obtain ⟨j, hj, _, hlj⟩ := class_of_next hm hg hi hl
    obtain ⟨γ₁, hk₁, _, hv⟩ := ih γ j hg hj hlj
    have hk₂ := Keeps.drop hm hk₁.graded hch hlist
    have hk := hk₁.trans hk₂
    obtain ⟨γ', hk', hv'⟩ := ih' γ₁ i hk.graded ((hk.same p hm.inside).trans hi) (hl.keeps hg hk)
    refine ⟨γ', hk.trans hk', fun v hmem => ?_⟩
    rcases List.mem_append.mp hmem with hmem | hmem
    · exact (hv v hmem).keeps hk₁.graded (hk₂.trans hk')
    · exact hv' v hmem

/-! ## Passes that end -/

/-- A pass ends on an outline if it has a run over it, wherever it stands with a class of at most
the level. -/
def Ends (pass : Pass) (g : Grading ι) (base : ι) (level : Nat) (o : Outline) : Prop :=
  ∀ {above t γ i}, t.Site o above none → g.Graded γ t → γ o.id = some i →
    Lineage g γ t base i above → g.level i ≤ level →
    ∃ r t' visits, Run pass.callback none o above t () r t' () visits

/-- A pass ends on the places of a holder if it ends on what they hold. -/
theorem held_ends (hp : pass.Conforms g base puts) (level : Nat) {p : NodeId}
    {front rest : List Outline} {above : List NodeId} (hm : t.Midway p front rest above none)
    (hg : g.Graded γ t) (hi : γ p = some i) (hl : Lineage g γ t base i above)
    (hrest : ∀ c ∈ rest, Ends pass g base level c ∧ ∃ j, γ c.id = some j ∧ g.level j ≤ level) :
    ∃ held' t' visits, RunHeld pass.callback none p front rest above t () held' t' () visits := by
  induction rest generalizing front t γ with
  | nil => exact ⟨front, t, [], .done hm⟩
  | cons o rest ih =>
    obtain ⟨hends, j', hj', hlevel⟩ := hrest o (by simp)
    obtain ⟨j, hj, _, hlj⟩ := class_of_next hm hg hi hl
    obtain rfl : j' = j := Option.some.inj (hj'.symm.trans hj)
    obtain ⟨r, t₁, visits, hrun⟩ := hends hm.site hg hj hlj hlevel
    obtain ⟨γ₁, hk₁, hr₁, _⟩ := (run_graded hp.fits).1 hrun γ j' hg hj hlj
    have hch := (run_changes.1 hrun).1
    have hlater : ∀ {γ' t''}, Keeps g γ γ' t t'' → ∀ c ∈ rest,
        Ends pass g base level c ∧ ∃ j, γ' c.id = some j ∧ g.level j ≤ level := by
      intro γ' t'' hk c hc
      obtain ⟨hends, k, hk', hlk⟩ := hrest c (List.mem_cons_of_mem o hc)
      exact ⟨hends, k, (hk.same _ (hg.inside hk')).trans hk', hlk⟩
    by_cases hlist : r = none ∧ (t.element p).isList = true
    · obtain ⟨rfl, hlist⟩ := hlist
      have hk := hk₁.trans (Keeps.drop hm hk₁.graded hch hlist)
      obtain ⟨held', t', later, hothers⟩ := ih (hm.drop hch hlist).1 hk.graded
        ((hk.same p hm.inside).trans hi) (hl.keeps hg hk) (hlater hk)
      exact ⟨held', t', _, .dropped hm hrun hlist hch hothers⟩
    · have hstays : r = none → (t.element p).isList = false := by
        intro hr
        rcases hb : (t.element p).isList with _ | _
        · rfl
        · exact absurd ⟨hr, hb⟩ hlist
      obtain ⟨γ₂, hk₂⟩ := Keeps.fill hm hk₁ hj hr₁ (run_regrown hrun)
      have hk := hk₁.trans hk₂
      obtain ⟨held', t', later, hothers⟩ := ih (hm.fill (run_regrown hrun)).1 hk.graded
        ((hk.same p hm.inside).trans hi) (hl.keeps hg hk) (hlater hk)
      exact ⟨held', t', _, .filled hm hrun hstays (run_regrown hrun) hothers⟩

/-- A pass that never fails and only puts in documents that are of lower levels below their tops
ends on every outline: what is put in for a node is entered with a lower level, and any other node
with fewer nodes below it. -/
theorem pass_ends (hp : pass.Conforms g base puts) (htotal : ∀ t id, ∃ v, pass t id = .ok v)
    (level : Nat) : ∀ o, Ends pass g base level o := by
  induction level using Nat.strongRecOn with
  | ind level ihlevel =>
    intro o
    induction o using Outline.induct with
    | node id held ih =>
      intro above t γ i hs hg hi hl hlevel
      have hkept : ∃ held' t' visits,
          RunHeld pass.callback none id [] held above t () held' t' () visits := by
        refine held_ends hp level hs.midway hg hi hl fun c hc => ⟨ih c hc, ?_⟩
        have hmem : c.id ∈ (t.element id).children := by
          rw [hs.stands.spans.children]
          exact List.mem_map_of_mem hc
        obtain ⟨j, hj, hh⟩ := hg.holds hi hmem
        exact ⟨j, hj, Nat.le_trans (g.level_le hh) hlevel⟩
      rcases hlist : (t.element id).isList with _ | _
      · obtain ⟨verdict, hv⟩ := htotal t id
        have hc : pass.callback id t () = .ok (verdict.move, ()) :=
          pass_decided.mpr ⟨verdict, hv, rfl⟩
        rcases ht : verdict.move.take t id with ⟨_ | new, t₁⟩
        · obtain rfl := take_none ht
          exact ⟨none, _, _, .gone hs hlist hc ht⟩
        · obtain ⟨o', rfl, hs', hgrown, hroot, hleads⟩ := take_some hs ht
          obtain ⟨γ₁, hk, hnew, _, hcase⟩ := take_graded hp.fits (fun d => hp.below) hs hg hi hl hc ht
          cases o' with
          | node new held₁ =>
            obtain ⟨held', t', visits, hrest⟩ : ∃ held' t' visits,
                RunHeld pass.callback none new [] held₁ above t₁ () held' t' () visits := by
              rcases hcase with hkeep | hlower
              · rw [hkeep] at hleads
                obtain ⟨ho, rfl⟩ := hleads
                obtain ⟨rfl, rfl⟩ := Outline.node.inj ho
                exact hkept
              · refine held_ends hp (g.level i - 1) hs'.midway hk.graded hnew (hl.keeps hg hk)
                  fun c hc' => ?_
                have hmem : c.id ∈ (t₁.element new).children := by
                  rw [hs'.stands.spans.children]
                  exact List.mem_map_of_mem hc'
                obtain ⟨j, hj, hlt⟩ := hlower c.id hmem
                exact ⟨ihlevel (g.level i - 1) (by omega) c, j, hj, by omega⟩
            exact ⟨_, t', _, .stays hs hlist hc ht hs' hgrown hroot hleads hrest⟩
      · obtain ⟨held', t', visits, hrest⟩ := hkept
        exact ⟨_, t', visits, .list hs hlist hrest⟩

/-- Such a pass ends on a whole tree with a class, and what is left of the tree is of the class. -/
theorem whole_ends (hp : pass.Conforms g base puts) (htotal : ∀ t id, ∃ v, pass t id = .ok v)
    {o : Outline} (hw : Whole t o) (hg : g.Graded γ t) (hbase : γ o.id = some base) :
    ∃ r t₁ visits γ₁, Run pass.callback none o [] t () r t₁ () visits ∧ g.Graded γ₁ t₁ ∧
      (∀ o', r = some o' → γ₁ o'.id = some base) ∧ ∀ v ∈ visits, Answered puts γ₁ t₁ v := by
  have hs : t.Site o [] none := hw.loose ▸ hw.stands.site
  obtain ⟨r, t₁, visits, hrun⟩ := pass_ends hp htotal _ o hs hg hbase rfl (Nat.le_refl _)
  obtain ⟨γ₁, hk, hr, hv⟩ := (run_graded hp.fits).1 hrun γ base hg hbase rfl
  exact ⟨r, t₁, visits, γ₁, hrun, hk.graded, hr, hv⟩

end

end WikiHtml.Substitution
