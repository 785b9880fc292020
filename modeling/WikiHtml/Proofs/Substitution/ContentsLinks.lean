-- Where the links of a table of contents lead. The anchor of a link is made from the text that a
-- heading has when the table is filled in, and the attribute of the heading from the text that it has
-- in the end. They are the same if nothing was left to be filled in in the heading.
import WikiHtml.Proofs.Html.HeadingTags
import WikiHtml.Proofs.Substitution.Contents
import WikiHtml.Proofs.Substitution.Pipeline
import WikiHtml.Proofs.Substitution.Places
import WikiHtml.Proofs.Substitution.ProperTree

namespace WikiHtml.Substitution

open Placeholder Calendar Html

/-- Nothing below a node is left to be filled in. -/
def FilledIn (t : Tree) (id : NodeId) : Prop :=
  DoneBelow (fun e => e.isLeaf Leaf.isPlaceholder = false) t id

/-- The headings of the page that a visited node belongs to. -/
def Visit.headings (v : Visit) : List NodeId :=
  (v.tree.contextPage v.node false).toList.flatMap v.tree.headings

/-- The lines of a table of contents that is filled in at a visit. -/
def Visit.contents (v : Visit) : Document :=
  .group (lines (List.replicate deepestLevel 0) (v.headings.filterMap v.tree.headingAt?))

/-- What becomes of a heading of the page around a table of contents: the link in the table is made
from the heading as it is then, and its tag from what it is in the end. -/
structure Announced (v : Visit) (t' : Tree) (acts : List (Act String)) (id : NodeId)
    (before after : Heading) : Prop where
  made : v.tree.headingAt? id = some before
  last : t'.headingAt? id = some after
  level : after.level = before.level
  link : before.isListed = true → ∃ c, t'.rootDocument.Part c ∧
    c.element.bare = .wrap (.linkPage none (some (Text.anchor before.text))) none
  tag : .openTag (headingTag after.level) (headingAttr after.content) ∈ acts
  hit : FilledIn v.tree id → before.text ≠ "" →
    headingAttr after.content = attr "id" (Text.anchor before.text)

/-! ## Tables of contents -/

theorem headingAttr_of_text {h : Heading} (hne : h.text ≠ "") :
    headingAttr h.content = attr "id" (Text.anchor h.text) := by
  obtain ⟨level, content⟩ := h
  unfold headingAttr
  cases content with
  | none => exact absurd rfl hne
  | some content => exact if_neg hne

theorem line_part (h : Heading) (numbers : List Nat) :
    ∃ c, (line h numbers).Part c ∧
      c.element.bare = .wrap (.linkPage none (some (Text.anchor h.text))) none :=
  ⟨_, .tail .refl (List.mem_singleton_self _), rfl⟩

/-- Each listed heading has its line. -/
theorem mem_lines {h : Heading} {hs : List Heading} (hm : h ∈ hs) (hl : h.isListed = true)
    (numbers : List Nat) : ∃ numbers', line h numbers' ∈ lines numbers hs := by
  induction hs generalizing numbers with
  | nil => cases hm
  | cons first rest ih =>
    rw [lines]
    rcases List.mem_cons.mp hm with rfl | hm
    · rw [if_pos hl]
      exact ⟨_, List.mem_cons_self⟩
    · split
      · obtain ⟨numbers', hline⟩ := ih hm (advance numbers first.level)
        exact ⟨numbers', List.mem_cons_of_mem _ hline⟩
      · exact ih hm numbers

section

variable {v : Visit} {above left : List NodeId}

/-- The page around a visited node that is none itself is among the nodes above. -/
theorem Visit.Placed.contextPage (h : v.Placed none [] left)
    (hleaf : (v.tree.element v.node).isPage = false) {page : NodeId}
    (hp : v.tree.contextPage v.node false = some page) :
    page ∈ left ∧ ∃ b : Outline, b.id = page ∧ v.tree.Spans b ∧ b.ids.Nodup := by
  obtain ⟨o, between, ho, hs, hb⟩ := h.site
  rw [← ho, hs.contextPage, List.append_nil, List.find?_cons, ho, hleaf] at hp
  exact hb page (List.mem_of_find?_eq_some hp)

/-- A table of contents has the lines of the headings around it. -/
theorem Visit.Placed.contentsOf (h : v.Placed none [] left)
    (hleaf : (v.tree.element v.node).isPage = false) :
    contentsOf v.tree v.node = v.contents := by
  unfold Visit.contents Visit.headings
  rcases hp : v.tree.contextPage v.node false with _ | page
  · unfold Substitution.contentsOf
    rw [hp]
    rfl
  · obtain ⟨_, b, rfl, hs, hn⟩ := h.contextPage hleaf hp
    rw [contentsOf_eq hp hs hn, Option.toList_some, List.flatMap_singleton]

end

/-! ## Headings -/

section

variable {t t₁ t' : Tree} {o o' b : Outline} {r : Option Outline} {visits : List Visit}
  {rep : Repository} {settings : Settings} {now : Moment} {view : View} {acts : List (Act String)}

/-- Placeholders hold nothing. -/
theorem children_of_placeholder {e : Element NodeId} (h : ¬ e.bare.isLeaf Leaf.isPlaceholder = false) :
    e.children = [] := by
  rw [Element.isLeaf_bare] at h
  cases e with
  | leaf l => rfl
  | _ => exact absurd rfl h

/-- A heading is no placeholder and no list. -/
theorem heading_only {e : Element NodeId} (h : e.isWrap Wrapper.isHeading = true) :
    e.bare.isLeaf Leaf.isPlaceholder = false ∧ e.isList = false := by
  rw [Element.isLeaf_bare]
  cases e with
  | wrap w child => exact ⟨rfl, rfl⟩
  | _ => cases h

/-- The tag of each heading below the top is written. -/
theorem tag_written (hw : Whole t o) (hacts : (t.rootDocument.all headingStart?).Sublist acts)
    {id : NodeId} (hid : id ∈ o.ids) {h : Heading} (hh : t.headingAt? id = some h) :
    .openTag (headingTag h.level) (headingAttr h.content) ∈ acts := by
  rw [Tree.headingAt?_below hw.stands.spans hw.stands.nodup hid] at hh
  refine hacts.subset (Document.mem_all (c := t.shown id) ?_ ?_)
  · rw [hw.rootDocument]
    exact Tree.part_shown hw.stands.spans hw.stands.nodup hid
  · rw [heading?_eq_some hh]
    rfl

/-- A heading stays a heading of its level, and if nothing was to be filled in below it, it is the
same one. -/
theorem heading_after {id : NodeId} {held held' : List Outline}
    (hst : Steady (fun e => e.isLeaf Leaf.isPlaceholder = false) t t')
    (hheading : (t.element id).isWrap Wrapper.isHeading = true) (hs : t.Spans (.node id held))
    (hn : (Outline.node id held).ids.Nodup) (hs' : t'.Spans (.node id held'))
    (hn' : (Outline.node id held').ids.Nodup) :
    ∃ before after, t.headingAt? id = some before ∧ t'.headingAt? id = some after ∧
      after.level = before.level ∧ (FilledIn t id → after = before) := by
  have hin : id < t.size := hs.inside
  have hbare := hst.bare_eq hin
  have hheading' : (t'.element id).isWrap Wrapper.isHeading = true := by
    rw [← Element.isWrap_bare, hbare, Element.isWrap_bare, hheading]
  obtain ⟨before, hbefore⟩ := Option.isSome_iff_exists.mp
    ((Tree.headingAt?_isSome hs hn).trans hheading)
  obtain ⟨after, hafter⟩ := Option.isSome_iff_exists.mp
    ((Tree.headingAt?_isSome hs' hn').trans hheading')
  have hthen := (Tree.headingAt?_eq hs hn).symm.trans hbefore
  have hlast := (Tree.headingAt?_eq hs' hn').symm.trans hafter
  refine ⟨before, after, hbefore, hafter, level_of_bare hthen hlast ?_, fun hfilled => ?_⟩
  · exact (Grading.held_of_shown hs' hn').1.trans
      (hbare.trans (Grading.held_of_shown hs hn).1.symm)
  · have hsame : t'.document? id = t.document? id :=
      hst.document?_eq hs hn fun x hx => (hfilled x (hs.reaches hx)).2
    have heq : t'.headingAt? id = t.headingAt? id := by
      rw [Tree.headingAt?, hsame, Tree.headingAt?]
    exact Option.some.inj (hafter.symm.trans (heq.trans hbefore))

/-! ## Visits of a table of contents -/

/-- The document that was put in at a visit is there in the end, but for what was filled in. -/
theorem put_left (hrun : Run (placeholders rep settings now).callback none o [] t () r t₁ () visits)
    {v : Visit} (hv : v ∈ visits) {d c : Document} (hmove : v.move = .replace d) (hc : d.Part c)
    (hd : c.element.bare.isLeaf Leaf.isPlaceholder = false) :
    ∃ c', (cap t o.id r t₁).2.rootDocument.Part c' ∧ c'.element.bare = c.element.bare := by
  obtain ⟨offered, above, ho, hsite⟩ := (run_visits.1 hrun v hv).site
  obtain ⟨new, t₂, ht⟩ : ∃ new t₂, v.move.take v.tree v.node = (some new, t₂) := by
    rw [hmove]
    exact ⟨_, _, rfl⟩
  obtain ⟨kept, rfl, hmem⟩ := run_answers.1 hrun v hv new (by rw [ht])
  have hst := (((run_steady (placeholders_settles rep settings now)).1 hrun).2 v hv).2
  rw [ht] at hst
  obtain ⟨b, rfl, _, hgrown, _, hleads⟩ := take_some hsite (ho.symm ▸ ht)
  rw [hmove] at hleads
  obtain ⟨x, hx, hbare⟩ := part_of_shown hgrown.spans hgrown.nodup (hleads.2.symm ▸ hc)
  have hkept := left_of_steady hrun hst (fun _ _ => children_of_placeholder) hgrown.spans hmem hx
    (hbare ▸ hd)
  have hwhole := (whole_after hrun).1
  have hlast : x ∈ (cap t o.id (some kept) t₁).1.ids := (mem_cap t o.id).mpr (Or.inl hkept)
  obtain ⟨held, hs, hn⟩ := hwhole.stands.spans.descend hwhole.stands.nodup hlast
  refine ⟨(cap t o.id (some kept) t₁).2.shown x, ?_, ?_⟩
  · rw [hwhole.rootDocument]
    exact Tree.part_shown hwhole.stands.spans hwhole.stands.nodup hlast
  · have hgrows := (hst.trans (steady_cap t o.id (some kept) t₁)).toGrows
    rw [(Grading.held_of_shown hs hn).1, hbare]
    exact hgrows.bare_eq (hgrown.spans.lt_size x hx)

theorem Visit.contents_put
    (hrun : Run (placeholders rep settings now).callback none o [] t () r t₁ () visits) {v : Visit}
    (hv : v ∈ visits) {left : List NodeId} (hplaced : v.Placed none [] left)
    (hcontents : v.tree.element v.node = .leaf .tableOfContents) : v.move = .replace v.contents := by
  obtain ⟨s, s', hc⟩ := run_decided.1 hrun v hv
  obtain ⟨verdict, hverdict, hm⟩ := pass_decided.mp hc
  have hput : placeholders rep settings now v.tree v.node =
      .ok (.put (Substitution.contentsOf v.tree v.node)) := by
    unfold placeholders
    rw [hcontents]
  obtain rfl := Except.ok.inj (hverdict.symm.trans hput)
  rw [hm, hplaced.contentsOf (by rw [hcontents]; rfl)]
  rfl

/-- Each heading in a table of contents has a line there, and the line has its link. -/
theorem Visit.contents_part {v : Visit} {id : NodeId} {h : Heading} (hid : id ∈ v.headings)
    (hh : v.tree.headingAt? id = some h) (hl : h.isListed = true) :
    ∃ c, v.contents.Part c ∧
      c.element.bare = .wrap (.linkPage none (some (Text.anchor h.text))) none := by
  obtain ⟨numbers, hline⟩ := mem_lines (List.mem_filterMap.mpr ⟨id, hid, hh⟩) hl
    (List.replicate deepestLevel 0)
  obtain ⟨c, hc, hbare⟩ := line_part h numbers
  exact ⟨c, .head hline hc, hbare⟩

/-- What becomes of each heading around a table of contents. -/
theorem announced (hrun : Run (placeholders rep settings now).callback none o [] t () r t₁ () visits)
    (hacts : ((cap t o.id r t₁).2.rootDocument.all headingStart?).Sublist acts) {v : Visit}
    (hv : v ∈ visits) (hcontents : v.tree.element v.node = .leaf .tableOfContents) :
    v.move = .replace v.contents ∧ ∀ id ∈ v.headings,
      (∃ before after, Announced v (cap t o.id r t₁).2 acts id before after) ∧
      ∃ w ∈ visits, w.left = some id := by
  obtain ⟨_, left, hplaced, hleft⟩ := run_places.1 hrun v hv
  have hmove := Visit.contents_put hrun hv hplaced hcontents
  refine ⟨hmove, fun id hid => ?_⟩
  obtain ⟨page, hpage, hfound⟩ := List.mem_flatMap.mp hid
  obtain ⟨hpageleft, b, rfl, hs, hn⟩ :=
    hplaced.contextPage (by rw [hcontents]; rfl) (Option.mem_toList.mp hpage)
  obtain ⟨kept, rfl, hmem⟩ := hleft _ hpageleft
  obtain ⟨hidb, hheading, -⟩ :=
    (Tree.mem_matchesWithin hs hn (Tree.length_ids_le hs hn)).mp hfound
  have hst := steady_visit (placeholders_settles rep settings now) hrun hv
  obtain ⟨hdone, hlist⟩ := heading_only hheading
  have hkept := left_of_steady hrun hst (fun _ _ => children_of_placeholder) hs hmem hidb hdone
  have hwhole := (whole_after hrun).1
  have hlast : id ∈ (cap t o.id (some kept) t₁).1.ids := (mem_cap t o.id).mpr (Or.inl hkept)
  obtain ⟨held, hsid, hnid⟩ := hs.descend hn hidb
  obtain ⟨held', hsid', hnid'⟩ := hwhole.stands.spans.descend hwhole.stands.nodup hlast
  obtain ⟨before, after, hbefore, hafter, hlevel, hsame⟩ := heading_after
    (hst.trans (steady_cap t o.id (some kept) t₁)) hheading hsid hnid hsid' hnid'
  refine ⟨⟨before, after, hbefore, hafter, hlevel, fun hl => ?_,
    tag_written hwhole hacts hlast hafter, fun hfilled hne => ?_⟩, ?_⟩
  · obtain ⟨c, hc, hbare⟩ := Visit.contents_part hid hbefore hl
    obtain ⟨c', hc', hbare'⟩ := put_left hrun hv hmove hc (by rw [hbare]; rfl)
    exact ⟨c', hc', hbare'.trans hbare⟩
  · rw [hsame hfilled]
    exact headingAttr_of_text hne
  · refine run_offers_all.1 hrun kept rfl id hkept ?_
    rw [hst.isList_eq (hs.lt_size id hidb), hlist]

end

/-- What there is to know about the tables of contents in a page that the placeholders were filled in
for. -/
def ContentsLead (main : Document) (rep : Repository) (settings : Settings) (now : Moment)
    (view : View) (t' : Tree) : Prop :=
  ∃ fuel visits acts,
    page (placeholders rep settings now).callback.traced.rule fuel (Tree.ofDocument main) ((), []) =
      .ok (t', (), visits) ∧
    Html.page view t'.rootDocument = Writer.empty.perform acts ∧
    (∀ v ∈ visits, v.tree.element v.node = .leaf .tableOfContents →
      v.move = .replace v.contents ∧ ∀ id ∈ v.headings,
        (∃ before after, Announced v t' acts id before after) ∧ ∃ w ∈ visits, w.left = some id) ∧
    visits.Pairwise fun w v => ∀ id, w.left = some id →
      v.tree.ComesUpTo v.node id ∨ FilledIn v.tree id

/-- For every document and every repository, when the placeholders are filled in, each table of contents
becomes a list of the headings around it. The anchors are those that the headings have then, and all
the headings are written in the end, with what they are in the end. A link hits its heading if nothing
was left to be filled in below the heading, as it is for all headings that were gone through before and
do not hold the table. -/
theorem contents_lead_to_headings_that_are_filled_in (main : Document) (rep : Repository)
    (settings : Settings) (now : Moment) (view : View) {t' : Tree}
    (h : (placeholders rep settings now).apply rep (Tree.ofDocument main) = .ok t') :
    ContentsLead main rep settings now view t' := by
  obtain ⟨o, hw, _⟩ := ofDocument_whole main
  obtain ⟨r, t₁, visits, hrun, rfl⟩ := run_of_apply hw h
  obtain ⟨hwhole, hpage⟩ := whole_after hrun
  obtain ⟨_, fuel, htraced⟩ := apply_of_run rep hw hrun
  have hispage : (cap (Tree.ofDocument main) o.id r t₁).2.rootDocument.element.isPage = true := by
    rw [hwhole.rootDocument, isPage_shown hwhole.stands, hpage]
  obtain ⟨acts, hacts, hwritten⟩ := page_performs hispage view
  exact ⟨fuel, visits, acts, htraced, hwritten, fun v hv => announced hrun hacts hv,
    (run_behind (placeholders_settles rep settings now)).1 hrun⟩

theorem apply_of_page (rep : Repository) {pass : Pass} {t t' : Tree} (fuel : Nat)
    (h : page pass.rule fuel t () = .ok (t', ())) : pass.apply rep t = .ok t' := by
  rw [apply_eq_page rep (by rw [h]; nofun), h]
  rfl

/-- The link to a heading that holds a text. -/
theorem a_link_leads_to_a_heading_with_a_text :
    (placeholders .empty .standard noon).apply .empty (Tree.ofDocument pageWithHeading) =
        .ok pageWithContents ∧
      ContentsLead pageWithHeading .empty .standard noon ⟨.empty, .standard, false⟩
        pageWithContents := by
  have hpass : (placeholders .empty .standard noon).apply .empty (Tree.ofDocument pageWithHeading) =
      .ok pageWithContents := apply_of_page .empty 12 rfl
  exact ⟨hpass, contents_lead_to_headings_that_are_filled_in pageWithHeading .empty .standard noon
    ⟨.empty, .standard, false⟩ hpass⟩

/-- A page with a table of contents before a heading with the name of the page. -/
def pageWithName : Document :=
  .node (.wrap (.page (some "/p")) (some (.node (.list [.node (.leaf .tableOfContents) none,
    .node (.wrap (.heading 1) (some (.node (.list [.node (.leaf (.text "a")) none,
      .node (.leaf (.pageName .title false false)) none]) none))) none]) none))) none

/-- The page after that: the name was filled in after the table of contents. -/
def pageWithNameFilledIn : Tree :=
  ⟨#[⟨.leaf .tableOfContents, none, none⟩, ⟨.leaf (.text "a"), none, some 3⟩,
    ⟨.leaf (.pageName .title false false), none, none⟩, ⟨.list [1, 16], none, some 4⟩,
    ⟨.wrap (.heading 1) (some 3), none, some 5⟩, ⟨.list [14, 4], none, some 6⟩,
    ⟨.wrap (.page (some "/p")) (some 5), none, none⟩, ⟨.leaf (.text "1. "), none, some 11⟩,
    ⟨.leaf (.text "a"), none, some 10⟩, ⟨.leaf (.pageName .title false false), none, none⟩,
    ⟨.list [8, 15], none, some 11⟩, ⟨.list [7, 10], none, some 12⟩,
    ⟨.wrap (.linkPage none (some "a")) (some 11), none, some 13⟩,
    ⟨.wrap (.paragraph false 1 false) (some 12), none, some 14⟩, ⟨.list [13], none, some 5⟩,
    ⟨.leaf (.text "p"), none, some 10⟩, ⟨.leaf (.text "p"), none, some 3⟩], some 6⟩

/-- The link has the anchor of the heading without the name, and so it leads nowhere. -/
theorem a_link_misses_a_heading_with_the_name_of_the_page :
    (placeholders .empty .standard noon).apply .empty (Tree.ofDocument pageWithName) =
        .ok pageWithNameFilledIn ∧
      (Html.page ⟨.empty, .standard, false⟩ pageWithNameFilledIn.rootDocument).body =
        ["<div class=\"paragraph1\"><a href=\"#a\">1. ap</a></div>", "<h1 id=\"ap\">ap</h1>"] :=
  ⟨apply_of_page .empty 14 (by decide +kernel), by decide⟩

end WikiHtml.Substitution
