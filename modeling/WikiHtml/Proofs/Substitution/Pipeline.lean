-- The passes one after another. Each of them ends, unless the events cannot be listed, and leaves
-- nothing for itself or for one before it to do, so that in the end nothing is left to be shown in
-- another way.
import WikiHtml.Proofs.Html.Skipped
import WikiHtml.Proofs.Substitution.Descent

namespace WikiHtml.Substitution

open Element Calendar

variable {r : Repository} {t t' : Tree} {o : Outline}

/-- A pass ends with a tree, which it leaves as it is if it runs once more. -/
def Pass.Completes (pass : Pass) (r : Repository) (t t' : Tree) : Prop :=
  pass.apply r t = .ok t' ∧ pass.apply r t' = .ok t'

theorem applyAll_cons {pass : Pass} {rest : List Pass} (h : pass.apply r t = .ok t') :
    applyAll (pass :: rest) r t = applyAll rest r t' := by
  rw [applyAll, List.foldlM_cons, h]
  rfl

/-! ## Each pass after those before it -/

theorem inclusion_completes (hr : r.Keyed) (hw : Whole t o) :
    ∃ t' o', (inclusion r).Completes r t t' ∧ Whole t' o' ∧
      ∀ x ∈ o'.ids, (t'.element x).isLeaf Leaf.isInclusion = false := by
  obtain ⟨γ, hg, hbase⟩ := nesting_graded r hw
  obtain ⟨t', h⟩ := ends_of_total r (inclusion_conforms hr) (inclusion_total r) hw hg hbase
  obtain ⟨res, t₁, visits, hrun, rfl⟩ := run_of_apply hw h
  obtain ⟨hdone, hagain⟩ := done_after r (inclusion_settles hr) hrun
  refine ⟨_, _, ⟨h, hagain⟩, (whole_after hrun).1, fun x hx => ?_⟩
  rw [← isLeaf_bare]
  exact hdone x hx

theorem contacts_complete (r : Repository) (today : Date) (hw : Whole t o)
    (h : ∀ x ∈ o.ids, (t.element x).isLeaf Leaf.isInclusion = false) :
    ∃ t' o', (contacts today).Completes r t t' ∧ Whole t' o' ∧
      ∀ x ∈ o'.ids, (t'.element x).isLeaf Leaf.isInclusion = false ∧
        (t'.element x).isWrap Wrapper.isContact = false := by
  have hone : ∀ e, contactLadder.least e ≤ 1 := fun e => by
    simp only [contactLadder]
    split <;> omega
  have hmost : ∀ e i, i ≤ contactLadder.most e (i + 1) := fun e i => by
    simp only [contactLadder]
    split <;> omega
  obtain ⟨_, γ, hg, _, base, hbase, rfl⟩ :=
    Ladder.gradable hone hmost hw.stands.spans hw.stands.nodup fun x hx => by
      simpa [contactLadder] using h x hx
  have hconforms := contacts_conforms today base
  obtain ⟨t', ht⟩ := ends_of_total r hconforms (contacts_total today) hw hg hbase
  obtain ⟨o', hw', hall, hagain⟩ :=
    after_pass hconforms (contacts_settles today) hw hg hbase ht
  refine ⟨t', o', ⟨ht, hagain⟩, hw', fun x hx => ?_⟩
  simpa [contactLadder] using hall x hx

theorem events_complete (r : Repository) (settings : Settings) (today : Date) (hw : Whole t o)
    (h : ∀ x ∈ o.ids, (t.element x).isLeaf Leaf.isInclusion = false ∧
      (t.element x).isWrap Wrapper.isContact = false) :
    (∃ cause, (events r settings today).apply r t = .error (.fault cause)) ∨
      ∃ t' o', (events r settings today).Completes r t t' ∧ Whole t' o' ∧
        ∀ x ∈ o'.ids, (t'.element x).isLeaf Leaf.isInclusion = false ∧
          (t'.element x).isWrap Wrapper.isContact = false := by
  have hone : ∀ e, eventLadder.least e ≤ 1 := fun e => by
    simp only [eventLadder]
    split <;> omega
  obtain ⟨_, γ, hg, _, base, hbase, rfl⟩ :=
    Ladder.gradable hone (fun _ i => Nat.le_succ i) hw.stands.spans hw.stands.nodup fun x hx => by
      simpa [eventLadder] using h x hx
  have hconforms := events_conforms r settings today base
  rcases ends_or_faults r hconforms hw hg hbase with ⟨t', ht⟩ | hfault
  · obtain ⟨o', hw', hall, hagain⟩ :=
      after_pass hconforms (events_settles r settings today) hw hg hbase ht
    refine Or.inr ⟨t', o', ⟨ht, hagain⟩, hw', fun x hx => ?_⟩
    simpa [eventLadder] using (hall x hx).1
  · exact Or.inl hfault

theorem placeholders_complete (r : Repository) (settings : Settings) (now : Moment) (hw : Whole t o)
    (h : ∀ x ∈ o.ids, (t.element x).isLeaf Leaf.isInclusion = false ∧
      (t.element x).isWrap Wrapper.isContact = false) (hn : NoContentsInHeadings t) :
    ∃ t' o', (placeholders r settings now).Completes r t t' ∧ Whole t' o' ∧
      ∀ x ∈ o'.ids, (t'.element x).isLeaf Leaf.isInclusion = false ∧
        (t'.element x).isLeaf Leaf.isPlaceholder = false ∧
        (t'.element x).isWrap Wrapper.isContact = false := by
  have hg := graded_of_noContents hw (fun x hx => by simpa [placeholderLadder] using h x hx) hn
  obtain ⟨base, hbase⟩ := headingClass_of_mem (t := t) o.id_mem_ids
  have hconforms := placeholders_conforms r settings now base
  obtain ⟨t', ht⟩ := ends_of_total r hconforms placeholders_total hw hg hbase
  obtain ⟨o', hw', hall, hagain⟩ :=
    after_pass hconforms (placeholders_settles r settings now) hw hg hbase ht
  refine ⟨t', o', ⟨ht, hagain⟩, hw', fun x hx => ?_⟩
  obtain ⟨⟨hinclusion, hcontact⟩, hplaceholder⟩ := hall x hx
  rw [isLeaf_bare] at hinclusion hplaceholder
  rw [isWrap_bare] at hcontact
  exact ⟨hinclusion, hplaceholder, hcontact⟩

/-! ## What is shown in the end -/

/-- Nothing is left for the passes: no page to be put in, no placeholder and no contact. -/
def NothingLeft (t : Tree) : Prop :=
  ∃ root, t.root = some root ∧ ∀ x, t.Reaches root x →
    (t.element x).isLeaf Leaf.isInclusion = false ∧
    (t.element x).isLeaf Leaf.isPlaceholder = false ∧
    (t.element x).isWrap Wrapper.isContact = false

/-- Every part of what is shown at a node has the element of a node below, but for what that
holds. -/
theorem part_of_shown (hs : t.Spans o) (hn : o.ids.Nodup) {c : Document}
    (hc : (t.shown o.id).Part c) : ∃ x ∈ o.ids, c.element.bare = (t.element x).bare := by
  induction o using Outline.induct with
  | node id held ih =>
    obtain ⟨hbare, hchildren⟩ := Grading.held_of_shown hs hn
    rcases hc.cases_head with rfl | ⟨d, hd, hrest⟩
    · exact ⟨id, by simp [Outline.ids_node], hbare⟩
    · rw [Outline.id_node, hchildren] at hd
      obtain ⟨below, hbelow, rfl⟩ := List.mem_map.mp hd
      obtain ⟨x, hx, he⟩ :=
        ih below hbelow (hs.held below hbelow) (Tree.Spans.nodup_held hn hbelow) hrest
      exact ⟨x, Outline.mem_ids_of_held (o := .node id held) hbelow hx, he⟩

theorem shows_rootDocument (hw : Whole t o)
    (h : ∀ x ∈ o.ids, (t.element x).isLeaf Leaf.isInclusion = false ∧
      (t.element x).isLeaf Leaf.isPlaceholder = false) (v : Html.View) :
    Html.Shows v t.rootDocument := by
  refine Html.shows_of_parts fun c hc => ?_
  rw [hw.rootDocument] at hc
  obtain ⟨x, hx, he⟩ := part_of_shown hw.stands.spans hw.stands.nodup hc
  rw [← isLeaf_bare, ← isLeaf_bare (q := Leaf.isPlaceholder), he, isLeaf_bare, isLeaf_bare]
  exact h x hx

/-- For every repository and every document the pages are put in and the contacts are shown. Then
the events are shown unless there is a fault in a count of days, and then, if no table of contents is
in a heading, the placeholders are filled in. After that nothing is left, and nothing is passed over
where the page is rendered. Each pass leaves a tree that it does not change any more. -/
theorem no_placeholder_survives_the_passes (pages : List (String × Document)) (main : Document)
    (settings : Settings) (now : Moment) :
    let r := Repository.ofPages pages
    ∃ t₁, (inclusion r).Completes r (Tree.ofDocument main) t₁ ∧
      ∃ t₂, (contacts now.date).Completes r t₁ t₂ ∧
        ((∃ cause, (events r settings now.date).apply r t₂ = .error (.fault cause)) ∨
          ∃ t₃, (events r settings now.date).Completes r t₂ t₃ ∧
            (NoContentsInHeadings t₃ → ∃ t₄, (placeholders r settings now).Completes r t₃ t₄ ∧
              applyAll (passes r settings now) r (Tree.ofDocument main) = .ok t₄ ∧
              NothingLeft t₄ ∧
              ∀ v, (Html.draw v (.top t₄.rootDocument) .empty t₄.rootDocument).skipped = [])) := by
  intro r
  obtain ⟨o, hw, _⟩ := ofDocument_whole main
  obtain ⟨t₁, o₁, h₁, hw₁, hleft₁⟩ := inclusion_completes (Repository.keyed_ofPages pages) hw
  obtain ⟨t₂, o₂, h₂, hw₂, hleft₂⟩ := contacts_complete r now.date hw₁ hleft₁
  refine ⟨t₁, h₁, t₂, h₂, ?_⟩
  rcases events_complete r settings now.date hw₂ hleft₂ with hfault | ⟨t₃, o₃, h₃, hw₃, hleft₃⟩
  · exact Or.inl hfault
  · refine Or.inr ⟨t₃, h₃, fun hn => ?_⟩
    obtain ⟨t₄, o₄, h₄, hw₄, hleft₄⟩ := placeholders_complete r settings now hw₃ hleft₃ hn
    refine ⟨t₄, h₄, ?_, ⟨o₄.id, hw₄.root, fun x hx => ?_⟩, fun v => ?_⟩
    · rw [passes, applyAll_cons h₁.1, applyAll_cons h₂.1, applyAll_cons h₃.1, applyAll_cons h₄.1]
      rfl
    · exact hleft₄ x (hw₄.stands.spans.mem_of_reaches hx)
    · exact shows_rootDocument hw₄ (fun x hx => ⟨(hleft₄ x hx).1, (hleft₄ x hx).2.1⟩) v _ .empty

end WikiHtml.Substitution
