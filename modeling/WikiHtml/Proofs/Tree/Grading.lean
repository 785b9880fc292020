-- Classes of nodes. A grading says which elements, with which ranges of the source text, may be of a
-- class and of which classes the held ones then are; a tree is graded if the nodes that have a class
-- keep to that. The classes of nodes stay while the tree grows, and what takes the place of a node
-- gets the class of the node.
import Mathlib.Tactic.Tauto
import WikiHtml.Proofs.Tree.Site

namespace WikiHtml

/-- The element without what it holds. -/
def Element.bare {α : Type} (e : Element α) : Element Empty :=
  e.refill []

theorem Element.bare_refill {α β : Type} (e : Element α) {values : List β}
    (h : e.Takes values.length) : (e.refill values).bare = e.bare :=
  e.refill_refill values [] h

theorem Element.Reshaped.bare_eq {α β : Type} {e : Element α} {e' : Element β}
    (h : e.Reshaped e') : e'.bare = e.bare := by
  obtain ⟨values, ht, rfl⟩ := h
  exact e.bare_refill ht

theorem Tree.Grows.bare_eq {t t' : Tree} (h : t.Grows t') {x : Nat} (hx : x < t.size) :
    (t'.element x).bare = (t.element x).bare :=
  (h.reshaped x hx).bare_eq

/-- Classes: `fits` says which elements with which spans may be of a class, `holds` of which classes
their held elements may be. Every class has a level, which does not rise on the way down. -/
structure Grading (ι : Type) where
  fits : Element Empty → Option Span → ι → Prop
  holds : Element Empty → ι → ι → Prop
  level : ι → Nat
  level_le : ∀ {e i j}, holds e i j → level j ≤ level i
  empty : ∀ i, fits (.list []) none i

namespace Grading

variable {ι : Type} {g : Grading ι}

/-! ## Documents -/

/-- A document is of a class if the elements in it can be given classes. -/
inductive Of (g : Grading ι) : ι → Document → Prop
  | node {i : ι} {e : Element Document} {span : Option Span} (classes : Document → ι)
      (fits : g.fits e.bare span i) (holds : ∀ d ∈ e.children, g.holds e.bare i (classes d))
      (rest : ∀ d ∈ e.children, Of g (classes d) d) : Of g i (.node e span)

theorem Of.intro {i : ι} {e : Element Document} {span : Option Span} (hf : g.fits e.bare span i)
    (h : ∀ d ∈ e.children, ∃ j, g.holds e.bare i j ∧ g.Of j d) : g.Of i (.node e span) := by
  have : Nonempty ι := ⟨i⟩
  choose! classes hc using h
  exact .node classes hf (fun d hd => (hc d hd).1) fun d hd => (hc d hd).2

theorem Of.fits {i : ι} {d : Document} (h : g.Of i d) : g.fits d.element.bare d.span i := by
  cases h with
  | node classes fits holds rest => exact fits

theorem Of.held {i : ι} {d c : Document} (h : g.Of i d) (hc : c ∈ d.element.children) :
    ∃ j, g.holds d.element.bare i j ∧ g.Of j c := by
  cases h with
  | node classes fits holds rest => exact ⟨classes c, holds c hc, rest c hc⟩

/-- A document of a class that holds documents of classes with `P`. -/
structure Over (g : Grading ι) (P : ι → Prop) (i : ι) (d : Document) : Prop where
  fits : g.fits d.element.bare d.span i
  held : ∀ c ∈ d.element.children, ∃ j, g.holds d.element.bare i j ∧ P j ∧ g.Of j c

theorem Of.over {i : ι} {d : Document} (h : g.Of i d) : g.Over (fun _ => True) i d where
  fits := h.fits
  held _ hc := by
    obtain ⟨j, hj, hof⟩ := h.held hc
    exact ⟨j, hj, trivial, hof⟩

theorem Over.of {P : ι → Prop} {i : ι} {d : Document} (h : g.Over P i d) : g.Of i d := by
  cases d with
  | node e span =>
    refine .intro h.fits fun c hc => ?_
    obtain ⟨j, hj, _, hof⟩ := h.held c hc
    exact ⟨j, hj, hof⟩

/-- A document that may take the place of a node of the class: what is held in it is of a lower
level. -/
abbrev Below (g : Grading ι) (i : ι) (d : Document) : Prop :=
  g.Over (g.level · < g.level i) i d

/-! ## Trees -/

/-- The nodes that have a class keep to the grading. -/
structure Graded (g : Grading ι) (γ : NodeId → Option ι) (t : Tree) : Prop where
  inside : ∀ {x i}, γ x = some i → x < t.size
  fits : ∀ {x i}, γ x = some i → g.fits (t.element x).bare (t.span x) i
  holds : ∀ {x i c}, γ x = some i → c ∈ (t.element x).children →
    ∃ j, γ c = some j ∧ g.holds (t.element x).bare i j

section

variable {γ γ₁ γ₂ : NodeId → Option ι} {t t' : Tree} {i j : ι}

theorem Graded.reaches (h : g.Graded γ t) {x y : NodeId} (hx : γ x = some i)
    (hr : t.Reaches x y) : ∃ j, γ y = some j := by
  induction hr with
  | refl => exact ⟨i, hx⟩
  | tail _ hc ih =>
    obtain ⟨j, hj⟩ := ih
    obtain ⟨k, hk, _⟩ := h.holds hj hc
    exact ⟨k, hk⟩

theorem Graded.congr (h : g.Graded γ t) (hs : t.size ≤ t'.size)
    (he : ∀ x i, γ x = some i → t'.element x = t.element x ∧ t'.span x = t.span x) :
    g.Graded γ t' where
  inside hx := Nat.lt_of_lt_of_le (h.inside hx) hs
  fits hx := by
    rw [(he _ _ hx).1, (he _ _ hx).2]
    exact h.fits hx
  holds hx hc := by
    rw [(he _ _ hx).1] at hc ⊢
    exact h.holds hx hc

/-- Two parts of a tree with nothing in common are graded together. -/
theorem Graded.merge (h₁ : g.Graded γ₁ t) (h₂ : g.Graded γ₂ t)
    (hd : ∀ x i, γ₂ x = some i → γ₁ x = none) : g.Graded (fun x => (γ₁ x).or (γ₂ x)) t := by
  have hcases : ∀ x i, (γ₁ x).or (γ₂ x) = some i → γ₁ x = some i ∨ γ₂ x = some i := by
    intro x i h
    rcases h₁x : γ₁ x with _ | j
    · rw [h₁x, Option.none_or] at h
      exact Or.inr h
    · rw [h₁x, Option.some_or] at h
      exact Or.inl h
  refine ⟨fun {x i} h => ?_, fun {x i} h => ?_, fun {x i c} h hc => ?_⟩
  · exact (hcases x i h).elim h₁.inside h₂.inside
  · exact (hcases x i h).elim h₁.fits h₂.fits
  · rcases hcases x i h with h | h
    · obtain ⟨j, hj, hh⟩ := h₁.holds h hc
      exact ⟨j, by simp [hj], hh⟩
    · obtain ⟨j, hj, hh⟩ := h₂.holds h hc
      exact ⟨j, by simp [hd c j hj, hj], hh⟩

/-- A holder gets a class where all that it holds have one. -/
theorem Graded.top (h : g.Graded γ t) {x : Nat} (hx : x < t.size) (hn : γ x = none)
    (hf : g.fits (t.element x).bare (t.span x) i)
    (hh : ∀ c ∈ (t.element x).children, ∃ j, γ c = some j ∧ g.holds (t.element x).bare i j) :
    g.Graded (fun y => if y = x then some i else γ y) t := by
  have hne : ∀ c j, γ c = some j → c ≠ x := by
    rintro c j hc rfl
    rw [hn] at hc
    cases hc
  refine ⟨fun {y j} hy => ?_, fun {y j} hy => ?_, fun {y j c} hy hc => ?_⟩ <;>
    by_cases he : y = x
  · exact he ▸ hx
  · rw [if_neg he] at hy
    exact h.inside hy
  · rw [if_pos he, Option.some.injEq] at hy
    rw [he, ← hy]
    exact hf
  · rw [if_neg he] at hy
    exact h.fits hy
  · rw [if_pos he, Option.some.injEq] at hy
    rw [he] at hc ⊢
    obtain ⟨k, hk, hholds⟩ := hh c hc
    exact ⟨k, by rw [if_neg (hne c k hk), hk], hy ▸ hholds⟩
  · rw [if_neg he] at hy
    obtain ⟨k, hk, hholds⟩ := h.holds hy hc
    exact ⟨k, by rw [if_neg (hne c k hk), hk], hholds⟩

end

/-! ## Grading what is shown -/

/-- The nodes of an outline can be graded, so that the one at the top gets a class with `P`. -/
def Gradable (g : Grading ι) (t : Tree) (P : ι → Prop) (o : Outline) : Prop :=
  ∃ γ, g.Graded γ t ∧ (∀ x i, γ x = some i → x ∈ o.ids) ∧ ∃ i, γ o.id = some i ∧ P i

section

variable {t : Tree} {i : ι} {P : ι → Prop}

theorem Gradable.beside {os : List Outline} (hn : (os.flatMap Outline.ids).Nodup)
    {P : Outline → ι → Prop} (h : ∀ c ∈ os, g.Gradable t (P c) c) :
    ∃ γ, g.Graded γ t ∧ (∀ x i, γ x = some i → x ∈ os.flatMap Outline.ids) ∧
      ∀ c ∈ os, ∃ i, γ c.id = some i ∧ P c i := by
  induction os with
  | nil => exact ⟨fun _ => none, ⟨nofun, nofun, nofun⟩, nofun, by simp⟩
  | cons c rest ih =>
    rw [List.flatMap_cons, List.nodup_append'] at hn
    obtain ⟨_, hnrest, hdis⟩ := hn
    obtain ⟨γ₁, hg₁, hd₁, k, hk, hP⟩ := h c (by simp)
    obtain ⟨γ₂, hg₂, hd₂, htops⟩ := ih hnrest fun d hd => h d (List.mem_cons_of_mem c hd)
    have hnone : ∀ x i, γ₂ x = some i → γ₁ x = none := by
      intro x i hx
      rcases hx₁ : γ₁ x with _ | j
      · rfl
      · exact (hdis (hd₁ x j hx₁) (hd₂ x i hx)).elim
    refine ⟨_, hg₁.merge hg₂ hnone, fun x i hx => ?_, fun d hd => ?_⟩
    · rw [List.flatMap_cons, List.mem_append]
      rcases hx₁ : γ₁ x with _ | j
      · rw [hx₁, Option.none_or] at hx
        exact Or.inr (hd₂ x i hx)
      · exact Or.inl (hd₁ x j hx₁)
    · rcases List.mem_cons.mp hd with rfl | hd
      · exact ⟨k, by simp [hk], hP⟩
      · obtain ⟨j, hj, hPj⟩ := htops d hd
        exact ⟨j, by simp [hnone _ j hj, hj], hPj⟩

theorem Gradable.node {id : NodeId} {held : List Outline} (hs : t.Spans (.node id held))
    (hn : (Outline.node id held).ids.Nodup) (hf : g.fits (t.element id).bare (t.span id) i)
    (h : ∀ c ∈ held, g.Gradable t (fun j => g.holds (t.element id).bare i j ∧ P j) c) :
    ∃ γ, g.Graded γ t ∧ (∀ x i, γ x = some i → x ∈ (Outline.node id held).ids) ∧
      γ id = some i ∧ ∀ c ∈ (t.element id).children, ∃ j, γ c = some j ∧ P j := by
  rw [Outline.ids_node, List.nodup_cons] at hn
  obtain ⟨γ, hg, hd, htops⟩ := Gradable.beside hn.2 h
  have hnone : γ id = none := by
    rcases hid : γ id with _ | j
    · rfl
    · exact (hn.1 (hd id j hid)).elim
  have hheld : ∀ c ∈ (t.element id).children,
      ∃ j, γ c = some j ∧ g.holds (t.element id).bare i j ∧ P j := by
    intro c hc
    rw [hs.children] at hc
    obtain ⟨o, ho, rfl⟩ := List.mem_map.mp hc
    exact htops o ho
  refine ⟨_, hg.top (show id < t.size from hs.inside) hnone hf fun c hc => ?_, fun x j hx => ?_,
    if_pos rfl, fun c hc => ?_⟩
  · obtain ⟨j, hj, hh, _⟩ := hheld c hc
    exact ⟨j, hj, hh⟩
  · rw [Outline.ids_node, List.mem_cons]
    split at hx
    · exact Or.inl ‹_›
    · exact Or.inr (hd x j hx)
  · obtain ⟨j, hj, _, hP⟩ := hheld c hc
    have hne : c ≠ id := by
      rintro rfl
      rw [hnone] at hj
      cases hj
    exact ⟨j, by rw [if_neg hne, hj], hP⟩

/-- What a document holds that is shown below a holder. -/
theorem held_of_shown {id : NodeId} {held : List Outline} (hs : t.Spans (.node id held))
    (hn : (Outline.node id held).ids.Nodup) :
    (t.shown id).element.bare = (t.element id).bare ∧
      (t.shown id).element.children = held.map fun c => t.shown c.id := by
  have htakes : (t.element id).Takes (held.map fun c => t.shown c.id).length :=
    Or.inr (by rw [hs.children, List.length_map, List.length_map])
  rw [Tree.shown_node hs hn]
  exact ⟨Element.bare_refill _ htakes, Element.children_refill _ _ htakes⟩

theorem span_of_shown {id : NodeId} {held : List Outline} (hs : t.Spans (.node id held))
    (hn : (Outline.node id held).ids.Nodup) : (t.shown id).span = t.span id := by
  rw [Tree.shown_node hs hn]
  rfl

/-- Where a document of a class is shown, the nodes can be graded. -/
theorem gradable_of_shown {o : Outline} (hs : t.Spans o) (hn : o.ids.Nodup)
    (h : g.Of i (t.shown o.id)) : g.Gradable t (· = i) o := by
  induction o using Outline.induct generalizing i with
  | node id held ih =>
    obtain ⟨hbare, hchildren⟩ := held_of_shown hs hn
    have hf := h.fits
    rw [Outline.id_node, hbare, span_of_shown hs hn] at hf
    obtain ⟨γ, hg, hd, htop, _⟩ := Gradable.node (P := fun _ : ι => True) hs hn hf fun c hc => by
      have hm : t.shown c.id ∈ (t.shown id).element.children := by
        rw [hchildren]
        exact List.mem_map_of_mem hc
      obtain ⟨j, hj, hof⟩ := h.held hm
      obtain ⟨γ, hg, hd, k, hk, rfl⟩ := ih c hc (hs.held c hc) (Tree.Spans.nodup_held hn hc) hof
      exact ⟨γ, hg, hd, k, hk, hbare ▸ hj, trivial⟩
    exact ⟨γ, hg, hd, i, htop, rfl⟩

/-- Where a document is shown that is of classes with `P` below its top, the nodes can be graded
so. -/
theorem graded_over {id : NodeId} {held : List Outline} (hs : t.Spans (.node id held))
    (hn : (Outline.node id held).ids.Nodup) (h : g.Over P i (t.shown id)) :
    ∃ γ, g.Graded γ t ∧ (∀ x i, γ x = some i → x ∈ (Outline.node id held).ids) ∧
      γ id = some i ∧ ∀ c ∈ (t.element id).children, ∃ j, γ c = some j ∧ P j := by
  obtain ⟨hbare, hchildren⟩ := held_of_shown hs hn
  have hf := h.fits
  rw [hbare, span_of_shown hs hn] at hf
  refine Gradable.node hs hn hf fun c hc => ?_
  have hm : t.shown c.id ∈ (t.shown id).element.children := by
    rw [hchildren]
    exact List.mem_map_of_mem hc
  obtain ⟨j, hj, hP, hof⟩ := h.held _ hm
  obtain ⟨γ, hg, hd, k, hk, rfl⟩ :=
    gradable_of_shown (hs.held c hc) (Tree.Spans.nodup_held hn hc) hof
  exact ⟨γ, hg, hd, k, hk, hbare ▸ hj, hP⟩

theorem bare_of_documentWithin {bound : Nat} {x : NodeId} {d : Document} (hx : x < t.size)
    (hd : t.documentWithin bound x = some d) : d.element.bare = (t.element x).bare := by
  cases bound with
  | zero => cases hd
  | succ bound =>
    rw [Tree.documentWithin_succ t bound hx] at hd
    obtain ⟨values, hv, rfl⟩ := Option.map_eq_some_iff.mp hd
    exact Element.bare_refill _ (Or.inr (Element.length_of_mapM hv))

/-- What is shown at a node of a class is a document of the class. -/
theorem Graded.documentWithin {γ : NodeId → Option ι} (h : g.Graded γ t) {bound : Nat}
    {x : NodeId} {d : Document} (hx : γ x = some i) (hd : t.documentWithin bound x = some d) :
    g.Of i d := by
  induction bound generalizing x i d with
  | zero => cases hd
  | succ bound ih =>
    rw [Tree.documentWithin_succ t bound (h.inside hx)] at hd
    obtain ⟨values, hv, rfl⟩ := Option.map_eq_some_iff.mp hd
    have hlen := Element.length_of_mapM hv
    have htakes : (t.element x).Takes values.length := Or.inr hlen
    refine .intro ?_ fun c hc => ?_
    · rw [Element.bare_refill _ htakes]
      exact h.fits hx
    · rw [Element.children_refill _ _ htakes] at hc
      obtain ⟨y, hy, hdoc⟩ := Element.mem_of_mapM hv hc
      obtain ⟨j, hj, hh⟩ := h.holds hx hy
      refine ⟨j, ?_, ih hj hdoc⟩
      rwa [Element.bare_refill _ htakes]

end

/-! ## Trees that change -/

section

variable {γ : NodeId → Option ι} {t t' : Tree} {i j : ι} {p old new : NodeId} {k : Nat}

/-- A holder stays in order if it holds, but for nodes of the class of a held one, what it held. -/
theorem Graded.reshape (h : g.Graded γ t) (p : NodeId) (hs : t.size ≤ t'.size)
    (hspan : ∀ x, t'.span x = t.span x) (he : ∀ x : Nat, x ≠ p → t'.element x = t.element x)
    (hb : (t'.element p).bare = (t.element p).bare)
    (hc : ∀ c ∈ (t'.element p).children, ∃ c' ∈ (t.element p).children, γ c = γ c') :
    g.Graded γ t' := by
  refine ⟨fun hx => Nat.lt_of_lt_of_le (h.inside hx) hs, fun {x i} hx => ?_,
    fun {x i c} hx hm => ?_⟩ <;> by_cases hxp : x = p
  · rw [hxp] at hx ⊢
    rw [hb, hspan]
    exact h.fits hx
  · rw [he x hxp, hspan]
    exact h.fits hx
  · rw [hxp] at hx hm ⊢
    obtain ⟨c', hm', hcc⟩ := hc c hm
    rw [hcc, hb]
    exact h.holds hx hm'
  · rw [he x hxp] at hm ⊢
    exact h.holds hx hm

theorem Graded.refit (h : g.Graded γ t) (hp : p < t.size)
    (hk : (t.element p).children[k]? = some old) (hn : γ new = γ old) :
    g.Graded γ (t.refit p k new) := by
  refine h.reshape p (by simp) (by simp) (fun x hx => ?_) ?_ fun c hc => ?_
  · rw [Tree.element_refit hp, if_neg hx]
  · rw [Tree.element_refit hp, if_pos rfl]
    exact Element.bare_refill _ (Tree.takes_set ..)
  · rw [Tree.children_refit hp] at hc
    rcases List.mem_or_eq_of_mem_set hc with hc | rfl
    · exact ⟨c, hc, rfl⟩
    · exact ⟨old, List.mem_of_getElem? hk, hn⟩

theorem Graded.takeOut (h : g.Graded γ t) (hp : p < t.size)
    (hl : (t.element p).isList = true) (hk : (t.element p).children[k]? = some old) :
    g.Graded γ (t.takeOut p k) := by
  refine h.reshape p (by simp [Tree.takeOut_eq hl hk]) (by simp [Tree.takeOut_eq hl hk])
    (fun x hx => ?_) ?_ fun c hc => ?_
  · rw [Tree.element_takeOut hl hk hp, if_neg hx]
  · rw [Tree.element_takeOut hl hk hp, if_pos rfl]
    exact Element.bare_refill _ (Or.inl hl)
  · rw [Tree.children_takeOut hl hk hp] at hc
    exact ⟨c, List.mem_of_mem_eraseIdx hc, rfl⟩

/-- A new empty list may be of any class. -/
theorem Graded.addEmpty (h : g.Graded γ t) (i : ι) :
    g.Graded (fun x => if x = t.size then some i else γ x) t.addEmpty.2 := by
  have hsame : ∀ x : Nat, x < t.size → t.addEmpty.2.element x = t.element x ∧
      t.addEmpty.2.span x = t.span x := fun x hx => by
    rw [Tree.addEmpty, Tree.element_add, Tree.span_add, if_neg (Nat.ne_of_lt hx),
      if_neg (Nat.ne_of_lt hx)]
    exact ⟨rfl, rfl⟩
  have hnew : t.addEmpty.2.element t.size = .list [] ∧ t.addEmpty.2.span t.size = none := by
    rw [Tree.addEmpty, Tree.element_add, Tree.span_add, if_pos rfl, if_pos rfl]
    exact ⟨rfl, rfl⟩
  have hnone : γ t.size = none := by
    rcases hx : γ t.size with _ | j
    · rfl
    · exact (Nat.lt_irrefl _ (h.inside hx)).elim
  have hg : g.Graded γ t.addEmpty.2 :=
    h.congr (by simp [Tree.addEmpty]) fun x j hx => hsame x (h.inside hx)
  refine hg.top (by simp [Tree.addEmpty]) hnone ?_ ?_
  · rw [hnew.1, hnew.2]
    exact g.empty i
  · rw [hnew.1]
    simp [Element.children]

end

end Grading

end WikiHtml
