-- Gradings by numbers. An element asks for a least number, and sets a bound to the numbers of what
-- it holds; plain elements ask for nothing. A pass that puts in something with smaller numbers ends,
-- or it fails, and it leaves only elements that are allowed.
import WikiHtml.Proofs.Document.Parts
import WikiHtml.Proofs.Substitution.GradedRun

namespace WikiHtml.Substitution

/-- Which elements are allowed, the least number that an element asks for, and the greatest one of
what it holds if it has a number itself. -/
structure Ladder where
  allowed : Element Empty → Prop
  least : Element Empty → Nat
  most : Element Empty → Nat → Nat
  most_le : ∀ e i, most e i ≤ i
  most_mono : ∀ e {i j}, i ≤ j → most e i ≤ most e j
  plain : ∀ {e}, e.isPlain = true → allowed e ∧ least e = 0 ∧ ∀ i, most e i = i
  page : ∀ path, allowed (.wrap (.page path) none)

namespace Ladder

variable {l : Ladder} {i j : Nat} {d : Document} {P : Document → Prop}

/-- The numbers as classes. -/
def grading (l : Ladder) : Grading Nat where
  fits e _ i := l.allowed e ∧ l.least e ≤ i
  holds e i j := j ≤ l.most e i
  level i := i
  level_le {e i j} h := Nat.le_trans h (l.most_le e i)
  empty i := by
    obtain ⟨hallowed, hleast, _⟩ := l.plain (e := .list []) rfl
    exact ⟨hallowed, by omega⟩

/-! ## Documents -/

theorem of_mono (h : l.grading.Of i d) (hij : i ≤ j) : l.grading.Of j d := by
  cases h with
  | node classes fits holds rest =>
    refine .node classes ⟨fits.1, Nat.le_trans fits.2 hij⟩ (fun c hc => ?_) rest
    exact Nat.le_trans (holds c hc) (l.most_mono _ hij)

theorem of_part {c : Document} (h : l.grading.Of i d) (hc : d.Part c) : l.grading.Of i c := by
  induction hc with
  | refl => exact h
  | tail _ hstep ih =>
    obtain ⟨j, hj, hof⟩ := ih.held hstep
    exact of_mono hof (Nat.le_trans hj (l.most_le _ i))

theorem fits_plain {e : Element Document} {span : Option Span} (h : e.isPlain = true) :
    l.grading.fits e.bare span i ∧ ∀ i, l.most e.bare i = i := by
  have hb : e.bare.isPlain = true := (e.isPlain_refill []).trans h
  obtain ⟨hallowed, hleast, hmost⟩ := l.plain hb
  exact ⟨⟨hallowed, by omega⟩, hmost⟩

theorem of_around (h : Document.Around P d) (hP : ∀ d, P d → l.grading.Of i d) :
    l.grading.Of i d := by
  induction h with
  | given h => exact hP _ h
  | fill h _ _ ih =>
    obtain ⟨hfits, hmost⟩ := fits_plain h.plain
    exact Grading.Over.of (P := fun _ => True)
      ⟨hfits, fun c hc => ⟨i, Nat.le_of_eq (hmost i).symm, trivial, ih c hc⟩⟩

/-- What is put together of plain elements around documents of a number may take the place of a node
of a greater one. -/
theorem below_of_made (h : Document.Made P d) (hij : j < i) (hP : ∀ d, P d → l.grading.Of j d) :
    l.grading.Below i d := by
  obtain ⟨hfits, hmost⟩ := fits_plain h.plain
  refine ⟨hfits, fun c hc => ⟨j, ?_, hij, of_around (h.held c hc) hP⟩⟩
  show j ≤ l.most d.element.bare i
  rw [hmost]
  exact Nat.le_of_lt hij

/-! ## Trees -/

/-- Where no element asks for more than one, and what an element holds may have the number before
its own, every tree can be graded. -/
theorem gradable {t : Tree} {o : Outline} (hone : ∀ e, l.least e ≤ 1)
    (hmost : ∀ e i, i ≤ l.most e (i + 1)) (hs : t.Spans o) (hn : o.ids.Nodup)
    (ha : ∀ x ∈ o.ids, l.allowed (t.element x).bare) : ∃ i, l.grading.Gradable t (· = i) o := by
  induction o using Outline.induct with
  | node id held ih =>
    have hheld : ∀ os : List Outline, (∀ c ∈ os, c ∈ held) →
        ∃ m, ∀ c ∈ os, l.grading.Gradable t (· ≤ m) c := by
      intro os
      induction os with
      | nil => exact fun _ => ⟨0, by simp⟩
      | cons c rest ihrest =>
        intro hsub
        have hc := hsub c (by simp)
        obtain ⟨i, γ, hg, hd, k, hk, rfl⟩ := ih c hc (hs.held c hc) (Tree.Spans.nodup_held hn hc)
          fun x hx => ha x (Outline.mem_ids_of_held (o := .node id held) hc hx)
        obtain ⟨m, hm⟩ := ihrest fun b hb => hsub b (List.mem_cons_of_mem c hb)
        refine ⟨max k m, List.forall_mem_cons.mpr ⟨⟨γ, hg, hd, k, hk, by omega⟩, fun b hb => ?_⟩⟩
        obtain ⟨γ, hg, hd, i, hi, him⟩ := hm b hb
        exact ⟨γ, hg, hd, i, hi, by omega⟩
    obtain ⟨m, hm⟩ := hheld held fun c hc => hc
    have hf : l.grading.fits (t.element id).bare (t.span id) (m + 1) := by
      refine ⟨ha id (by simp [Outline.ids_node]), ?_⟩
      have := hone (t.element id).bare
      omega
    obtain ⟨γ, hg, hd, htop, _⟩ :=
      Grading.Gradable.node (P := fun _ : Nat => True) hs hn hf fun c hc => by
        obtain ⟨γ, hg, hd, i, hi, him⟩ := hm c hc
        exact ⟨γ, hg, hd, i, hi, Nat.le_trans him (hmost _ m), trivial⟩
    exact ⟨m + 1, γ, hg, hd, m + 1, htop, rfl⟩

end Ladder

/-! ## Passes on ladders -/

/-- The pass that keeps a node where the pass fails. -/
def Pass.hushed (pass : Pass) : Pass := fun t id =>
  match pass t id with
  | .ok verdict => .ok verdict
  | .error _ => .ok .keep

theorem hushed_put {pass : Pass} {t : Tree} {id : NodeId} {d : Document}
    (h : pass.hushed t id = .ok (.put d)) : pass t id = .ok (.put d) := by
  unfold Pass.hushed at h
  split at h
  · rename_i verdict hv
    cases h
    exact hv
  · cases h

/-- A stop because the pass failed. -/
def IsFault (stop : Stop Event.Fault) : Prop :=
  ∃ cause, stop = .fault cause

theorem rules_hushed (pass : Pass) : RulesUnless IsFault pass.rule pass.hushed.rule := by
  intro id t s
  unfold offer
  split
  · exact Or.inr rfl
  · rcases hp : pass t id with cause | verdict
    · refine Or.inl ⟨_, ⟨cause, rfl⟩, ?_⟩
      simp only [Pass.rule, hp]
      rfl
    · refine Or.inr ?_
      simp only [Pass.rule, Pass.hushed, hp]

section

variable {ι : Type} {g : Grading ι} {pass : Pass} {base : ι} {puts : ι → Document → Prop}
  {t t' : Tree} {o : Outline} {γ : NodeId → Option ι}

/-- A pass that goes down ends, or it fails. -/
theorem ends_or_faults (rep : Repository) (hp : pass.Conforms g base puts) (hw : Whole t o)
    (hg : g.Graded γ t) (hbase : γ o.id = some base) :
    (∃ t', pass.apply rep t = .ok t') ∨ ∃ cause, pass.apply rep t = .error (.fault cause) := by
  have hhushed : pass.hushed.Conforms g base puts :=
    ⟨fun hs hg hi hl hd => hp.put hs hg hi hl (hushed_put hd), hp.below⟩
  have htotal : ∀ t id, ∃ v, pass.hushed t id = .ok v := by
    intro t id
    unfold Pass.hushed
    split <;> exact ⟨_, rfl⟩
  obtain ⟨r, t₁, visits, _, hrun, _⟩ := whole_ends hhushed htotal hw hg hbase
  obtain ⟨fuel, hwalk⟩ := (walks_of_runs _ _).1 hrun
  have hpage := page_eq_cap hw.root (hwalk fuel (Nat.le_refl _))
  rw [callback_rule] at hpage
  have hsame := page_unless (rules_hushed pass) 0 (Or.inr rfl) fuel t ()
  rw [Nat.zero_add, hpage] at hsame
  rcases hsame with ⟨stop, ⟨cause, rfl⟩, he⟩ | he
  · have hne : page pass.rule fuel t () ≠ .error .outOfFuel := by rw [he]; nofun
    refine Or.inr ⟨cause, ?_⟩
    rw [apply_eq_page rep hne, he]
    rfl
  · have hne : page pass.rule fuel t () ≠ .error .outOfFuel := by rw [he]; nofun
    refine Or.inl ⟨(cap t o.id r t₁).2, ?_⟩
    rw [apply_eq_page rep hne, he]
    rfl

/-- A pass that never fails and goes down ends. -/
theorem ends_of_total (rep : Repository) (hp : pass.Conforms g base puts)
    (htotal : ∀ t id, ∃ v, pass t id = .ok v) (hw : Whole t o) (hg : g.Graded γ t)
    (hbase : γ o.id = some base) : ∃ t', pass.apply rep t = .ok t' := by
  obtain ⟨r, t₁, visits, _, hrun, _⟩ := whole_ends hp htotal hw hg hbase
  exact ⟨_, (apply_of_run rep hw hrun).1⟩

end

/-- After a pass over a tree on a ladder all elements are allowed and done, and running it again
changes nothing. -/
theorem after_pass {l : Ladder} {pass : Pass} {base : Nat} {puts : Nat → Document → Prop}
    {done : Element Empty → Prop} {t t' : Tree} {o : Outline} {γ : NodeId → Option Nat}
    {rep : Repository} (hp : pass.Conforms l.grading base puts) (hsettles : pass.Settles done)
    (hw : Whole t o) (hg : l.grading.Graded γ t) (hbase : γ o.id = some base)
    (h : pass.apply rep t = .ok t') :
    ∃ o', Whole t' o' ∧ (∀ x ∈ o'.ids, l.allowed (t'.element x).bare ∧ done (t'.element x).bare) ∧
      pass.apply rep t' = .ok t' := by
  obtain ⟨r, t₁, visits, hrun, rfl⟩ := run_of_apply hw h
  obtain ⟨γ₁, hk, hr, _⟩ := (run_graded hp.fits).1 hrun γ base hg hbase rfl
  obtain ⟨hdone, hagain⟩ := done_after rep hsettles hrun
  have hspans : ∀ o', r = some o' → t₁.Spans o' := fun o' ho' =>
    ((run_changes.1 hrun).2.2 o' ho').spans
  have hallowed := cap_all (P := l.allowed) hrun (l.plain rfl).1 l.page fun o' ho' x hx => by
    obtain ⟨i, hi⟩ := hk.graded.reaches (hr o' ho') ((hspans o' ho').reaches hx)
    exact (hk.graded.fits hi).1
  exact ⟨_, (whole_after hrun).1, fun x hx => ⟨hallowed x hx, hdone x hx⟩, hagain⟩

end WikiHtml.Substitution
