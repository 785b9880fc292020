-- The headings of a page in a tree. A table of contents is made from the document of the page; its
-- lines are those of the nodes that are outermost headings, in their order.
import Mathlib.Data.List.Flatten
import WikiHtml.Placeholder.Contents
import WikiHtml.Proofs.Element.Kinds
import WikiHtml.Proofs.Tree.Documents
import WikiHtml.Proofs.Tree.Sharing

namespace WikiHtml

open Placeholder

namespace Placeholder

theorem heading?_eq_some {e : Element Document} {h : Heading} (he : heading? e = some h) :
    e = .wrap (.heading h.level) h.content := by
  unfold heading? at he
  split at he
  · cases he
    rfl
  · cases he

theorem heading?_isSome (e : Element Document) :
    (heading? e).isSome = e.isWrap Wrapper.isHeading := by
  rcases e with members | ⟨w, child⟩ | ⟨params, rows⟩ | l
  · rfl
  · cases w <;> rfl
  · rfl
  · rfl

/-- The level of a heading can be told without what it holds. -/
theorem level_of_bare {e e' : Element Document} {h h' : Heading} (he : heading? e = some h)
    (he' : heading? e' = some h') (hb : e'.bare = e.bare) : h'.level = h.level := by
  have hbare : ∀ h : Heading, (Element.wrap (.heading h.level) h.content).bare =
      .wrap (.heading h.level) none := by
    intro h
    cases h.content <;> rfl
  rw [heading?_eq_some he, heading?_eq_some he', hbare, hbare, Element.wrap.injEq,
    Wrapper.heading.injEq] at hb
  exact hb.1

end Placeholder

namespace Tree

/-- The heading that a node shows. -/
def headingAt? (t : Tree) (id : NodeId) : Option Heading :=
  (t.document? id).bind fun d => heading? d.element

/-- The outermost headings below a node, in the order of the document. -/
def headings (t : Tree) (id : NodeId) : List NodeId :=
  t.nodesMatching id (·.isWrap Wrapper.isHeading) false

section

variable {t : Tree} {o : Outline}

theorem document?_eq_shown (hs : t.Spans o) (hn : o.ids.Nodup) :
    t.document? o.id = some (t.shown o.id) := by
  rw [shown_eq_along hs hn]
  exact document?_eq_along hs hn

theorem headingAt?_eq (hs : t.Spans o) (hn : o.ids.Nodup) :
    t.headingAt? o.id = heading? (t.shown o.id).element := by
  rw [headingAt?, document?_eq_shown hs hn, Option.bind_some]

/-- The heading that a node below shows. -/
theorem headingAt?_below (hs : t.Spans o) (hn : o.ids.Nodup) {x : NodeId} (hx : x ∈ o.ids) :
    t.headingAt? x = heading? (t.shown x).element := by
  obtain ⟨held, hsx, hnx⟩ := hs.descend hn hx
  exact headingAt?_eq hsx hnx

theorem headingAt?_isSome (hs : t.Spans o) (hn : o.ids.Nodup) :
    (t.headingAt? o.id).isSome = (t.element o.id).isWrap Wrapper.isHeading := by
  cases o with
  | node id held =>
    rw [headingAt?_eq hs hn, heading?_isSome, ← Element.isWrap_bare, Outline.id_node,
      (Grading.held_of_shown hs hn).1, Element.isWrap_bare]

/-- The outermost headings of the document below a node are shown by the outermost headings among the
nodes. -/
theorem outermost_shown (hs : t.Spans o) (hn : o.ids.Nodup) :
    (t.shown o.id).outermost heading? = (t.headings o.id).filterMap t.headingAt? := by
  have hheading : ∀ (e : Element NodeId) (ds : List Document), e.Takes ds.length →
      (heading? (e.refill ds)).isSome = e.isWrap Wrapper.isHeading := by
    intro e ds _
    rw [heading?_isSome, Element.isWrap_refill]
  exact outermost_of_document hheading (document?_eq_shown hs hn)

/-- The nodes that match are found in the order in which the nodes stand. -/
theorem matchesWithin_sublist (p : Element NodeId → Bool) (into : Bool) (hs : t.Spans o)
    (depth : Nat) : (t.matchesWithin p into depth o.id).Sublist o.ids := by
  induction o using Outline.induct generalizing depth with
  | node id held ih =>
    cases depth with
    | zero => exact List.nil_sublist _
    | succ depth =>
      have hbelow : (held.flatMap fun c => t.matchesWithin p into depth c.id).Sublist
          (held.flatMap Outline.ids) :=
        List.Sublist.flatMap_right held fun c hc => ih c hc (hs.held c hc) depth
      rw [Outline.id_node, matchesWithin, hs.children, List.flatMap_map, Outline.ids_node]
      split
      · refine List.Sublist.cons_cons id ?_
        split
        · exact hbelow
        · exact List.nil_sublist _
      · exact hbelow.cons id

/-- If the search does not go on below a match, the nodes that are found are those that match with no
match above. -/
theorem mem_matchesWithin {p : Element NodeId → Bool} (hs : t.Spans o) (hn : o.ids.Nodup)
    {depth : Nat} (hd : o.ids.length ≤ depth) {x : NodeId} :
    x ∈ t.matchesWithin p false depth o.id ↔ x ∈ o.ids ∧ p (t.element x) = true ∧
      ∀ y ∈ o.ids, p (t.element y) = true → t.Reaches y x → y = x := by
  induction o using Outline.induct generalizing depth with
  | node id held ih =>
    rw [Outline.ids_node, List.length_cons] at hd
    obtain ⟨depth, rfl⟩ : ∃ n, depth = n + 1 := ⟨depth - 1, by omega⟩
    have hbelow : ∀ c ∈ held, c.ids.length ≤ depth := by
      intro c hc
      have := Outline.length_ids_le hc
      omega
    have hnodes := hn
    rw [Outline.ids_node, List.nodup_cons] at hnodes
    -- What is reached from a node below stands below the same held node.
    have hwithin : ∀ c ∈ held, ∀ y ∈ c.ids, t.Reaches y x → x ∈ c.ids := fun c hc y hy hyx =>
      (hs.held c hc).mem_of_reaches (((hs.held c hc).reaches hy).trans hyx)
    rw [Outline.id_node, matchesWithin, hs.children, List.flatMap_map, Outline.ids_node]
    split
    · rename_i hp
      rw [if_neg Bool.false_ne_true, List.mem_singleton]
      constructor
      · rintro rfl
        refine ⟨List.mem_cons_self, hp, fun y hy _ hyx => ?_⟩
        rcases List.mem_cons.mp hy with rfl | hy
        · rfl
        · obtain ⟨c, hc, hy⟩ := List.mem_flatMap.mp hy
          exact absurd (List.mem_flatMap.mpr ⟨c, hc, hwithin c hc y hy hyx⟩) hnodes.1
      · rintro ⟨hx, -, houter⟩
        exact (houter id List.mem_cons_self hp
          (hs.reaches (by rwa [Outline.ids_node]))).symm
    · rename_i hp
      rw [List.mem_flatMap]
      constructor
      · rintro ⟨c, hc, hx⟩
        obtain ⟨hx, hpx, houter⟩ :=
          (ih c hc (hs.held c hc) (Spans.nodup_held hn hc) (hbelow c hc)).mp hx
        refine ⟨List.mem_cons_of_mem _ (List.mem_flatMap.mpr ⟨c, hc, hx⟩), hpx,
          fun y hy hpy hyx => ?_⟩
        rcases List.mem_cons.mp hy with rfl | hy
        · exact absurd hpy hp
        · obtain ⟨d, hd, hy⟩ := List.mem_flatMap.mp hy
          obtain rfl := Outline.eq_of_mem_ids hnodes.2 hd hc (hwithin d hd y hy hyx) hx
          exact houter y hy hpy hyx
      · rintro ⟨hx, hpx, houter⟩
        rcases List.mem_cons.mp hx with rfl | hx
        · exact absurd hpx hp
        · obtain ⟨c, hc, hx⟩ := List.mem_flatMap.mp hx
          refine ⟨c, hc, (ih c hc (hs.held c hc) (Spans.nodup_held hn hc) (hbelow c hc)).mpr
            ⟨hx, hpx, fun y hy => houter y (List.mem_cons_of_mem _ ?_)⟩⟩
          exact List.mem_flatMap.mpr ⟨c, hc, hy⟩

/-- What a node below shows is a part of what is shown. -/
theorem part_shown (hs : t.Spans o) (hn : o.ids.Nodup) {x : NodeId} (hx : x ∈ o.ids) :
    (t.shown o.id).Part (t.shown x) := by
  induction o using Outline.induct with
  | node id held ih =>
    rw [Outline.ids_node, List.mem_cons, List.mem_flatMap] at hx
    rcases hx with rfl | ⟨c, hc, hx⟩
    · exact .refl
    · refine .head (b := t.shown c.id) ?_ (ih c hc (hs.held c hc) (Spans.nodup_held hn hc) hx)
      rw [Outline.id_node, (Grading.held_of_shown hs hn).2]
      exact List.mem_map_of_mem hc

end

end Tree

end WikiHtml
