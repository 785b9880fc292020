-- Walks over whole trees. The visits that a callback writes down are those of the run, and the run
-- ends with a page at the top, a new one if need be.
import WikiHtml.Proofs.Substitution.Walks

namespace WikiHtml.Substitution

variable {σ ε : Type} {c : Callback σ ε} {top : Option NodeId}

/-! ## Writing down the visits -/

section

variable {β : Type} {f : Visit → β}

theorem noting_ok {o : NodeId} {t : Tree} {s s' : σ × List β} {m : Move} :
    c.noting f o t s = .ok (m, s') ↔
      c o t s.1 = .ok (m, s'.1) ∧ s'.2 = s.2 ++ [f ⟨t, o, m⟩] := by
  obtain ⟨s, notes⟩ := s
  obtain ⟨s', notes'⟩ := s'
  rcases hc : c o t s with cause | ⟨m', s₁⟩
  · simp [Callback.noting, hc, bind, Except.bind]
  · simp only [Callback.noting, hc, bind, Except.bind, pure, Except.pure, Except.ok.injEq,
      Prod.mk.injEq]
    grind

theorem noting_eq {o : NodeId} {t : Tree} {s s' : σ} {m : Move} (h : c o t s = .ok (m, s'))
    (notes : List β) : c.noting f o t (s, notes) = .ok (m, s', notes ++ [f ⟨t, o, m⟩]) :=
  noting_ok.mpr ⟨h, rfl⟩

theorem run_of_noting :
    (∀ {o above t s r t' s' visits}, Run (c.noting f) top o above t s r t' s' visits →
      Run c top o above t s.1 r t' s'.1 visits ∧ s'.2 = s.2 ++ visits.map f) ∧
    (∀ {p front rest above t s held' t' s' visits},
      RunHeld (c.noting f) top p front rest above t s held' t' s' visits →
      RunHeld c top p front rest above t s.1 held' t' s'.1 visits ∧
        s'.2 = s.2 ++ visits.map f) := by
  refine run_induct ?_ ?_ ?_ ?_ ?_ ?_
  · rintro id held held' above t t' s s' visits site hl _ ⟨ih, hv⟩
    exact ⟨.list site hl ih, hv⟩
  · intro o above t s s' m site hl hc ht
    obtain ⟨hc, hv⟩ := noting_ok.mp hc
    exact ⟨.gone site hl hc ht, hv⟩
  · rintro o new held held' above t t₁ t' s s₁ s' m visits site hl hc ht site' hr hroot hleads _
      ⟨ih, hv⟩
    obtain ⟨hc, hv₁⟩ := noting_ok.mp hc
    exact ⟨.stays site hl hc ht site' hr hroot hleads ih, by rw [hv, hv₁]; simp⟩
  · intro p front above t s hm
    exact ⟨.done hm, by simp⟩
  · rintro p front rest held' o above t t₁ t' s s₁ s' r visits later hm _ hr hg _ ⟨ih, hv⟩
      ⟨ih', hv'⟩
    exact ⟨.filled hm ih hr hg ih', by rw [hv', hv]; simp⟩
  · rintro p front rest held' o above t t₁ t' s s₁ s' visits later hm _ hl hch _ ⟨ih, hv⟩
      ⟨ih', hv'⟩
    exact ⟨.dropped hm ih hl hch ih', by rw [hv', hv]; simp⟩

theorem noting_of_run :
    (∀ {o above t s r t' s' visits}, Run c top o above t s r t' s' visits → ∀ notes,
      Run (c.noting f) top o above t (s, notes) r t' (s', notes ++ visits.map f) visits) ∧
    (∀ {p front rest above t s held' t' s' visits},
      RunHeld c top p front rest above t s held' t' s' visits → ∀ notes,
      RunHeld (c.noting f) top p front rest above t (s, notes) held' t'
        (s', notes ++ visits.map f) visits) := by
  refine run_induct ?_ ?_ ?_ ?_ ?_ ?_
  · intro id held held' above t t' s s' visits site hl _ ih notes
    exact .list site hl (ih notes)
  · intro o above t s s' m site hl hc ht notes
    exact .gone site hl (noting_eq hc notes) ht
  · intro o new held held' above t t₁ t' s s₁ s' m visits site hl hc ht site' hr hroot hleads _
      ih notes
    refine .stays site hl (noting_eq hc notes) ht site' hr hroot hleads ?_
    have hrest := ih (notes ++ [f ⟨t, o.id, m⟩])
    rwa [← List.append_cons] at hrest
  · intro p front above t s hm notes
    simpa using RunHeld.done hm
  · intro p front rest held' o above t t₁ t' s s₁ s' r visits later hm _ hr hg _ ih ih' notes
    refine .filled hm (ih notes) hr hg ?_
    rw [List.map_append, ← List.append_assoc]
    exact ih' (notes ++ visits.map f)
  · intro p front rest held' o above t t₁ t' s s₁ s' visits later hm _ hl hch _ ih ih' notes
    refine .dropped hm (ih notes) hl hch ?_
    rw [List.map_append, ← List.append_assoc]
    exact ih' (notes ++ visits.map f)

end

/-- A walk that writes down its visits makes a run with these visits. -/
theorem run_of_walk {o : Outline} {above : List NodeId} {t t' : Tree} {s s' : σ} {fuel : Nat}
    {new : Option NodeId} {visits : List Visit} (hs : t.Site o above top)
    (h : walk c.traced.rule fuel o.id t (s, []) = .ok (new, t', s', visits)) :
    ∃ r, r.map Outline.id = new ∧ Run c top o above t s r t' s' visits := by
  obtain ⟨r, visits', hr, hrun⟩ := (runs_of_walks c.traced top fuel).1 hs h
  obtain ⟨hrun, hv⟩ := run_of_noting.1 hrun
  obtain rfl : visits = visits' := by simpa using hv
  exact ⟨r, hr, hrun⟩

/-! ## The page at the top -/

/-- An outline with a page at its top, which is a new one if need be. -/
def onTop (t : Tree) (path : Option String) (span : Option Span) (o : Outline) : Outline × Tree :=
  if (t.element o.id).isPage then (o, t)
  else (.node t.size [o], (t.add (.wrap (.page path) (some o.id)) span).2)

/-- What a walk over a whole tree ends with: what is left of the top, or an empty list, and if that
is no page a new page around it with the path and the span of the old top. -/
def cap (t : Tree) (root : NodeId) (r : Option Outline) (t₁ : Tree) : Outline × Tree :=
  let (o, t₂) := onTop (patch t₁ r).2 (t.pagePath root) (t.span root) (patch t₁ r).1
  (o, t₂.setRoot o.id)

theorem page_eq_cap {rule : Rule σ ε} {fuel : Nat} {t t₁ : Tree} {root : NodeId} {s s' : σ}
    {r : Option Outline} (hroot : t.root = some root)
    (h : walk rule fuel root t s = .ok (r.map Outline.id, t₁, s')) :
    page rule fuel t s = .ok ((cap t root r t₁).2, s') := by
  simp only [page, hroot, h, bind, Except.bind, orEmpty_eq_patch, asPage, cap, onTop]
  split <;> rfl

/-- Whole trees are walked over by runs from the top. -/
theorem page_run {o : Outline} {t t' : Tree} {s s' : σ} {fuel : Nat} {visits : List Visit}
    (hroot : t.root = some o.id) (hs : t.Stands [] o)
    (h : page c.traced.rule fuel t (s, []) = .ok (t', s', visits)) :
    ∃ r t₁, Run c (t.parent o.id) o [] t s r t₁ s' visits ∧ t' = (cap t o.id r t₁).2 := by
  have hpage := h
  simp only [page, hroot] at hpage
  obtain ⟨⟨new, t₁, s₁, visits₁⟩, hwalk, _⟩ := except_bind_ok hpage
  obtain ⟨r, rfl, hrun⟩ := run_of_walk hs.site hwalk
  rw [page_eq_cap hroot hwalk] at h
  cases h
  exact ⟨r, t₁, hrun, rfl⟩

/-- The document as a page. -/
def paged (path : Option String) (span : Option Span) (d : Document) : Document :=
  if d.element.isPage then d else .node (.wrap (.page path) (some d)) span

section

variable {t : Tree} {o : Outline} {stray : List NodeId}

theorem isPage_shown (h : t.Stands stray o) :
    (t.shown o.id).element.isPage = (t.element o.id).isPage := by
  cases o with
  | node id held =>
    rw [Outline.id_node, Tree.shown_node h.spans h.nodup]
    show ((t.element id).refill _).isPage = _
    exact Element.isPage_refill _ _

theorem onTop_stands (path : Option String) (span : Option Span) (h : t.Stands stray o)
    (hn : o.id ∉ stray) :
    (onTop t path span o).2.Stands stray (onTop t path span o).1 ∧
      ((onTop t path span o).2.element (onTop t path span o).1.id).isPage = true := by
  unfold onTop
  split
  · rename_i hpage
    exact ⟨h, hpage⟩
  · refine ⟨Tree.Stands.add span (by simp [Element.children]) (by simpa using h)
      (by simpa using h.nodup) (by simpa using hn), ?_⟩
    simp [Tree.element_add, Element.isPage]

theorem onTop_shown (path : Option String) (span : Option Span) (h : t.Stands stray o)
    (hn : o.id ∉ stray) :
    (onTop t path span o).2.shown (onTop t path span o).1.id = paged path span (t.shown o.id) := by
  have htop := (onTop_stands path span h hn).1
  rw [paged, isPage_shown h]
  unfold onTop at htop ⊢
  split at htop
  · rename_i hpage
    rw [if_pos hpage, if_pos hpage]
  · rename_i hpage
    have hsame : (t.add (.wrap (.page path) (some o.id)) span).2.shown o.id = t.shown o.id := by
      refine Tree.shown_congr h.spans h.nodup (by simp) ?_ ?_ <;> intro x hx
      · rw [Tree.element_add, if_neg (Nat.ne_of_lt (h.spans.lt_size x hx))]
      · rw [Tree.span_add, if_neg (Nat.ne_of_lt (h.spans.lt_size x hx))]
    rw [if_neg hpage, if_neg hpage, Outline.id_node, Tree.shown_node htop.spans htop.nodup,
      Tree.element_add, if_pos rfl, Tree.span_add, if_pos rfl, List.map_singleton, hsame]
    rfl

end

section

variable (t : Tree) (root : NodeId) {t₁ : Tree} {r : Option Outline} {stray : List NodeId}

/-- Below the top are the nodes that are left, and the new page if there is one. -/
theorem mem_cap {x : NodeId} :
    x ∈ (cap t root r t₁).1.ids ↔ x ∈ (patch t₁ r).1.ids ∨
      ((patch t₁ r).2.element (patch t₁ r).1.id).isPage = false ∧ x = (patch t₁ r).2.size := by
  simp only [cap, onTop]
  split
  · rename_i hp
    simp [hp]
  · rename_i hp
    rw [Outline.ids_node, List.flatMap_singleton, List.mem_cons]
    simp [hp, or_comm]

theorem element_cap {x : Nat} (hx : x < (patch t₁ r).2.size) :
    (cap t root r t₁).2.element x = (patch t₁ r).2.element x := by
  simp only [cap, onTop, Tree.element_setRoot]
  split
  · rfl
  · rw [Tree.element_add, if_neg (Nat.ne_of_lt hx)]

theorem span_cap {x : Nat} (hx : x < (patch t₁ r).2.size) :
    (cap t root r t₁).2.span x = (patch t₁ r).2.span x := by
  simp only [cap, onTop, Tree.span_setRoot]
  split
  · rfl
  · rw [Tree.span_add, if_neg (Nat.ne_of_lt hx)]

theorem size_le_cap : (patch t₁ r).2.size ≤ (cap t root r t₁).2.size := by
  simp only [cap, onTop, Tree.size_setRoot]
  split
  · exact Nat.le_refl _
  · simp

theorem element_cap_new
    (hp : ((patch t₁ r).2.element (patch t₁ r).1.id).isPage = false) :
    (cap t root r t₁).2.element (patch t₁ r).2.size =
      .wrap (.page (t.pagePath root)) (some (patch t₁ r).1.id) := by
  simp only [cap, onTop, Tree.element_setRoot]
  rw [if_neg (by simp [hp]), Tree.element_add, if_pos rfl]

/-- The top of the whole tree is a page without a parent, and everything is in as good an order as
it was below. -/
theorem cap_stands (h : (patch t₁ r).2.Stands stray (patch t₁ r).1)
    (hn : (patch t₁ r).1.id ∉ stray) :
    (cap t root r t₁).2.Stands stray (cap t root r t₁).1 ∧
      (cap t root r t₁).2.root = some (cap t root r t₁).1.id ∧
      (cap t root r t₁).2.parent (cap t root r t₁).1.id = none ∧
      ((cap t root r t₁).2.element (cap t root r t₁).1.id).isPage = true := by
  obtain ⟨hs, hpage⟩ := onTop_stands (t.pagePath root) (t.span root) h hn
  refine ⟨hs.setRoot, rfl, ?_, ?_⟩ <;> unfold cap
  · rw [Tree.parent_setRoot _ _ hs.spans.inside, if_pos rfl]
  · rw [Tree.element_setRoot, hpage]

theorem cap_shown (h : (patch t₁ r).2.Stands stray (patch t₁ r).1)
    (hn : (patch t₁ r).1.id ∉ stray) :
    (cap t root r t₁).2.shown (cap t root r t₁).1.id =
      paged (t.pagePath root) (t.span root) ((patch t₁ r).2.shown (patch t₁ r).1.id) := by
  rw [← onTop_shown _ _ h hn]
  obtain ⟨hs, _⟩ := onTop_stands (t.pagePath root) (t.span root) h hn
  exact Tree.shown_congr hs.spans hs.nodup (by simp [cap]) (by simp [cap]) (by simp [cap])

end

end WikiHtml.Substitution
