-- Why what the passes put in is smaller. A card holds fewer contacts one in the other than its
-- contact did. A table of events holds nothing for any pass. A table of contents repeats what the
-- headings hold, where other placeholders may stand but no table of contents.
import WikiHtml.Proofs.Substitution.Ladder
import WikiHtml.Proofs.Substitution.Passes

namespace WikiHtml.Substitution

open Element Calendar

variable {t : Tree} {o : Outline} {γ : NodeId → Option Nat} {i j : Nat} {d : Document}

/-! ## Contacts -/

/-- Nothing is to be included, and each contact around a node counts. -/
def contactLadder : Ladder where
  allowed e := e.isLeaf Leaf.isInclusion = false
  least e := if e.isWrap Wrapper.isContact then 1 else 0
  most e i := if e.isWrap Wrapper.isContact then i - 1 else i
  most_le e i := by split <;> omega
  most_mono e i j h := by split <;> omega
  plain h := by simp [(standsForNothing h).inclusion, (standsForNothing h).contact]
  page _ := rfl

theorem contacts_conforms (today : Date) (base : Nat) :
    (contacts today).Conforms contactLadder.grading base contactLadder.grading.Below where
  put {γ t o above i d} hs hg hi _ hd := by
    obtain ⟨hcontact, hmade⟩ := contacts_made hd
    have hpos : 1 ≤ i := by simpa [contactLadder, Ladder.grading, hcontact] using (hg.fits hi).2
    refine Ladder.below_of_made (j := i - 1) hmade (by omega) ?_
    rintro c ⟨child, hchild, content, hdoc, hpart⟩
    obtain ⟨j, hj, hh⟩ := hg.holds hi hchild
    have hle : j ≤ i - 1 := by simpa [contactLadder, Ladder.grading, hcontact] using hh
    exact Ladder.of_part (Ladder.of_mono (hg.documentWithin hj hdoc) hle) hpart
  below h := h

/-! ## Events -/

/-- Nothing is to be included and there are no contacts; a list of events counts by itself. -/
def eventLadder : Ladder where
  allowed e := e.isLeaf Leaf.isInclusion = false ∧ e.isWrap Wrapper.isContact = false
  least e := if e.isWrap Wrapper.isEvents then 1 else 0
  most _ i := i
  most_le _ i := Nat.le_refl i
  most_mono _ _ _ h := h
  plain h := by
    simp [(standsForNothing h).inclusion, (standsForNothing h).contact, (standsForNothing h).events]
  page _ := ⟨rfl, rfl⟩

theorem events_conforms (r : Repository) (settings : Settings) (today : Date) (base : Nat) :
    (events r settings today).Conforms eventLadder.grading base eventLadder.grading.Below where
  put {γ t o above i d} hs hg hi _ hd := by
    obtain ⟨hevents, es, rfl⟩ := events_put hd
    have hpos : 1 ≤ i := by simpa [eventLadder, Ladder.grading, hevents] using (hg.fits hi).2
    exact Ladder.below_of_made (j := 0) (P := fun _ => False) (Event.made_table settings es)
      (by omega) fun _ h => h.elim
  below h := h

/-! ## Placeholders -/

/-- Nothing is to be included and there are no contacts; a placeholder counts by itself, and a table
of contents counts double, so that there is no place for it in a heading. -/
def placeholderLadder : Ladder where
  allowed e := e.isLeaf Leaf.isInclusion = false ∧ e.isWrap Wrapper.isContact = false
  least e :=
    if e.isLeaf Leaf.isContents then 2 else if e.isLeaf Leaf.isPlaceholder then 1 else 0
  most e i := if e.isWrap Wrapper.isHeading then min 1 i else i
  most_le e i := by split <;> omega
  most_mono e i j h := by split <;> omega
  plain h := by
    simp [(standsForNothing h).inclusion, (standsForNothing h).contact,
      (standsForNothing h).contents, (standsForNothing h).placeholder, (standsForNothing h).heading]
  page _ := ⟨rfl, rfl⟩

/-- The nodes above a node with a class have classes as well. -/
theorem Lineage.class {ι : Type} {g : Grading ι} {γ : NodeId → Option ι} {base i : ι}
    {above : List NodeId} (h : Lineage g γ t base i above) {x : NodeId} (hx : x ∈ above) :
    ∃ j, γ x = some j := by
  induction above generalizing i with
  | nil => simp at hx
  | cons a as ih =>
    obtain ⟨j, hj, _, hrest⟩ := h
    rcases List.mem_cons.mp hx with rfl | hx
    · exact ⟨j, hj⟩
    · exact ih hrest hx

/-- What a heading holds has a place for other placeholders at most. -/
theorem of_inHeading {page : Document} (h : placeholderLadder.grading.Of i page)
    (hd : Placeholder.InHeading page d) : placeholderLadder.grading.Of 1 d := by
  obtain ⟨level, span, hpart, _⟩ := hd
  obtain ⟨j, hj, hof⟩ :=
    (Ladder.of_part h hpart).held (c := d) (by simp [Document.element, children])
  have hle : j ≤ min 1 i := hj
  exact Ladder.of_mono hof (by omega)

/-- A table of contents is put together around what the headings of a page hold. This is the first
page above the node, and it has a class. -/
theorem contentsOf_made {ι : Type} {g : Grading ι} {γ : NodeId → Option ι} {base i : ι}
    {above : List NodeId} (hs : t.Site o above none) (hg : g.Graded γ t)
    (hl : Lineage g γ t base i above) (hleaf : (t.element o.id).isLeaf Leaf.isContents = true) :
    (contentsOf t o.id).Made fun c => ∃ p k page,
      above.find? (fun x => (t.element x).isPage) = some p ∧ γ p = some k ∧ g.Of k page ∧
        page.element.bare = (t.element p).bare ∧ Placeholder.InHeading page c := by
  unfold contentsOf
  split
  · rename_i page hpage
    obtain ⟨p, hp, hdoc⟩ := Option.bind_eq_some_iff.mp hpage
    rw [hs.contextPage, List.find?_cons, isPage_of_isLeaf hleaf] at hp
    obtain ⟨k, hk⟩ := hl.class (List.mem_of_find?_eq_some hp)
    have hbare := Grading.bare_of_documentWithin (hg.inside hk) hdoc
    exact (Placeholder.made_tableOfContents page).mono fun c hc =>
      ⟨p, k, page, hp, hk, hg.documentWithin hk hdoc, hbare, hc⟩
  · exact Document.made_group (by simp)

theorem placeholders_conforms (r : Repository) (settings : Settings) (now : Moment) (base : Nat) :
    (placeholders r settings now).Conforms placeholderLadder.grading base
      placeholderLadder.grading.Below where
  put {γ t o above i d} hs hg hi hl hd := by
    have hleast := (hg.fits hi).2
    rcases placeholders_put hd with ⟨hcontents, rfl⟩ | ⟨hplace, hmade⟩
    · have htwo : 2 ≤ i := by simpa [placeholderLadder, Ladder.grading, hcontents] using hleast
      refine Ladder.below_of_made (contentsOf_made hs hg hl hcontents) (by omega : 1 < i) ?_
      rintro c ⟨p, k, page, _, _, hof, _, hc⟩
      exact of_inHeading hof hc
    · have hpos : 1 ≤ i := by
        simp only [placeholderLadder, isLeaf_bare, hplace, if_true] at hleast
        split at hleast <;> omega
      exact Ladder.below_of_made (j := 0) hmade (by omega) fun _ h => h.elim
  below h := h

/-! ## Tables of contents in headings -/

/-- No table of contents is to be filled in below a heading of the tree. -/
def NoContentsInHeadings (t : Tree) : Prop :=
  ∀ root heading held x, t.root = some root → t.Reaches root heading →
    (t.element heading).isWrap Wrapper.isHeading = true →
    held ∈ (t.element heading).children → t.Reaches held x →
    (t.element x).isLeaf Leaf.isContents = false

/-- A node is below a heading. -/
def InHeading (t : Tree) (o : Outline) (x : NodeId) : Prop :=
  ∃ heading ∈ o.ids, (t.element heading).isWrap Wrapper.isHeading = true ∧
    ∃ held ∈ (t.element heading).children, t.Reaches held x

theorem InHeading.held {x c : NodeId} (h : InHeading t o x) (hc : c ∈ (t.element x).children) :
    InHeading t o c := by
  obtain ⟨heading, hm, hheading, held, hheld, hreach⟩ := h
  exact ⟨heading, hm, hheading, held, hheld, hreach.tail hc⟩

open Classical in
/-- The nodes in headings are of the first class, the others of the second. -/
noncomputable def headingClass (t : Tree) (o : Outline) (x : NodeId) : Option Nat :=
  if x ∈ o.ids then some (if InHeading t o x then 1 else 2) else none

theorem headingClass_eq {x : NodeId} (h : headingClass t o x = some i) :
    x ∈ o.ids ∧ (InHeading t o x ∧ i = 1 ∨ ¬InHeading t o x ∧ i = 2) := by
  unfold headingClass at h
  split at h
  · rename_i hx
    refine ⟨hx, ?_⟩
    split at h
    · exact Or.inl ⟨‹_›, (Option.some.inj h).symm⟩
    · exact Or.inr ⟨‹_›, (Option.some.inj h).symm⟩
  · cases h

theorem headingClass_of_mem {x : NodeId} (h : x ∈ o.ids) : ∃ i, headingClass t o x = some i := by
  unfold headingClass
  exact ⟨_, if_pos h⟩

/-- Where there is no table of contents in a heading, a tree can be graded for the placeholders. -/
theorem graded_of_noContents (hw : Whole t o)
    (ha : ∀ x ∈ o.ids, placeholderLadder.allowed (t.element x).bare) (h : NoContentsInHeadings t) :
    placeholderLadder.grading.Graded (headingClass t o) t := by
  have hspans := hw.stands.spans
  refine ⟨fun {x i} hx => hspans.lt_size x (headingClass_eq hx).1, fun {x i} hx => ?_,
    fun {x i c} hx hc => ?_⟩
  · obtain ⟨hm, hclass⟩ := headingClass_eq hx
    refine ⟨ha x hm, ?_⟩
    have hcontents : InHeading t o x → (t.element x).isLeaf Leaf.isContents = false := by
      rintro ⟨heading, hmem, hheading, held, hheld, hreach⟩
      exact h o.id heading held x hw.root (hspans.reaches hmem) hheading hheld hreach
    simp only [placeholderLadder, isLeaf_bare]
    rcases hclass with ⟨hin, rfl⟩ | ⟨_, rfl⟩
    · rw [hcontents hin]
      simp only [Bool.false_eq_true, if_false]
      split <;> omega
    · split
      · omega
      · split <;> omega
  · obtain ⟨hm, hclass⟩ := headingClass_eq hx
    have hmc : c ∈ o.ids := hspans.mem_of_reaches ((hspans.reaches hm).tail hc)
    obtain ⟨j, hj⟩ := headingClass_of_mem (t := t) hmc
    refine ⟨j, hj, ?_⟩
    have hclass' := (headingClass_eq hj).2
    show j ≤ placeholderLadder.most (t.element x).bare i
    simp only [placeholderLadder, isWrap_bare]
    split
    · rename_i hheading
      rcases hclass' with ⟨_, rfl⟩ | ⟨hout, rfl⟩
      · rcases hclass with ⟨_, rfl⟩ | ⟨_, rfl⟩ <;> omega
      · exact absurd ⟨x, hm, hheading, c, hc, .refl⟩ hout
    · rcases hclass' with ⟨_, rfl⟩ | ⟨hout, rfl⟩ <;> rcases hclass with ⟨hin, rfl⟩ | ⟨_, rfl⟩
      · omega
      · omega
      · exact absurd (hin.held hc) hout
      · omega

end WikiHtml.Substitution
