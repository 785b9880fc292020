-- A walk does what plain recursion on documents does, for every decision that is made from the
-- offered document and a state: what is offered, in which order, and what comes out.
import WikiHtml.Proofs.Substitution.PassRun

namespace WikiHtml.Substitution

variable {σ ε : Type}

/-! ## Plain recursion -/

/-- What is made of an offered document, with a state. -/
abbrev Decider (σ ε : Type) := Document → σ → Except ε (Verdict × σ)

/-- The decider that also writes down what it was offered. -/
def Decider.traced (decide : Decider σ ε) : Decider (σ × List Document) ε :=
  fun d (s, offered) => do
    let (verdict, s) ← decide d s
    return (verdict, s, offered ++ [d])

/-- A list without members. -/
def emptyList : Document := .node (.list []) none

/-- How to go through a document with a state: what is left of it, and the state after that. -/
abbrev Recursion (σ ε : Type) := Document → σ → Except (Stop ε) (Option Document × σ)

section

variable (again : Recursion σ ε)

/-- The members of a list. A deleted one is left out. -/
def recurseMembers : List Document → σ → Except (Stop ε) (List Document × σ)
  | [], s => return ([], s)
  | member :: rest, s => do
    let (member, s) ← again member s
    let (rest, s) ← recurseMembers rest s
    return (member.toList ++ rest, s)

/-- The cells of a row. Deleted content gives way to an empty list. -/
def recurseCells : List (Cell Document) → σ → Except (Stop ε) (List (Cell Document) × σ)
  | [], s => return ([], s)
  | ⟨header, params, none⟩ :: rest, s => do
    let (rest, s) ← recurseCells rest s
    return (⟨header, params, none⟩ :: rest, s)
  | ⟨header, params, some content⟩ :: rest, s => do
    let (content, s) ← again content s
    let (rest, s) ← recurseCells rest s
    return (⟨header, params, some (content.getD emptyList)⟩ :: rest, s)

/-- The rows of a table. -/
def recurseRows : List (Row Document) → σ → Except (Stop ε) (List (Row Document) × σ)
  | [], s => return ([], s)
  | ⟨params, cells⟩ :: rest, s => do
    let (cells, s) ← recurseCells again cells s
    let (rest, s) ← recurseRows rest s
    return (⟨params, cells⟩ :: rest, s)

/-- The document with all that it holds gone through. -/
def recurseHeld (d : Document) (s : σ) : Except (Stop ε) (Document × σ) :=
  match d with
  | .node (.list members) span => do
    let (members, s) ← recurseMembers again members s
    return (.node (.list members) span, s)
  | .node (.wrap wrapper (some child)) span => do
    let (child, s) ← again child s
    return (.node (.wrap wrapper (some (child.getD emptyList))) span, s)
  | .node (.table params rows) span => do
    let (rows, s) ← recurseRows again rows s
    return (.node (.table params rows) span, s)
  | d => return (d, s)

end

/-- What is left of a document, so deep that it is gone through. It is offered first, unless it is a
list, and then what is held by the document that stays or takes its place. -/
def recurse (decide : Decider σ ε) : Nat → Recursion σ ε
  | 0, _, _ => throw .outOfFuel
  | depth + 1, d, s =>
    if d.element.isList then do
      let (d, s) ← recurseHeld (recurse decide depth) d s
      return (some d, s)
    else
      match decide d s with
      | .error cause => throw (.fault cause)
      | .ok (.keep, s) => do
        let (d, s) ← recurseHeld (recurse decide depth) d s
        return (some d, s)
      | .ok (.delete, s) => return (none, s)
      | .ok (.put new, s) => do
        let (d, s) ← recurseHeld (recurse decide depth) new s
        return (some d, s)

/-! ## All holders alike -/

section

variable {again : Recursion σ ε}

/-- Documents that stand in places of their own, so that an empty list comes for a deleted one. -/
def recurseAll (again : Recursion σ ε) :
    List Document → σ → Except (Stop ε) (List Document × σ)
  | [], s => return ([], s)
  | d :: rest, s => do
    let (d, s) ← again d s
    let (rest, s) ← recurseAll again rest s
    return (d.getD emptyList :: rest, s)

theorem recurseAll_append (ds ds' : List Document) (s : σ) :
    recurseAll again (ds ++ ds') s = (do
      let (ds, s) ← recurseAll again ds s
      let (ds', s) ← recurseAll again ds' s
      return (ds ++ ds', s)) := by
  induction ds generalizing s with
  | nil => simp [recurseAll]
  | cons d rest ih => simp [recurseAll, ih]

theorem recurseCells_eq (cells : List (Cell Document)) (s : σ) :
    recurseCells again cells s = (do
      let (ds, s) ← recurseAll again (Element.rowContents cells) s
      return (Element.refillCells cells ds, s)) := by
  induction cells generalizing s with
  | nil => simp [recurseCells, Element.rowContents, recurseAll, Element.refillCells]
  | cons cell rest ih =>
    obtain ⟨header, params, _ | d⟩ := cell
    · simp [recurseCells, Element.rowContents, Element.refillCells, ih]
    · simp [recurseCells, Element.rowContents, recurseAll, Element.refillCells, ih]

theorem recurseAll_length {ds ds' : List Document} {s s' : σ}
    (h : recurseAll again ds s = .ok (ds', s')) : ds'.length = ds.length := by
  induction ds generalizing s ds' with
  | nil =>
    cases h
    rfl
  | cons d rest ih =>
    obtain ⟨⟨new, s₁⟩, _, h⟩ := except_bind_ok h
    obtain ⟨⟨news, s₂⟩, hrest, h⟩ := except_bind_ok h
    cases h
    simp [ih hrest]

theorem recurseRows_of_all {rows : List (Row Document)} {ds : List Document} {s s' : σ}
    (h : recurseAll again (Element.contents rows) s = .ok (ds, s')) :
    recurseRows again rows s = .ok (Element.refillRows rows ds, s') := by
  induction rows generalizing s ds with
  | nil =>
    cases h
    rfl
  | cons row rest ih =>
    obtain ⟨params, cells⟩ := row
    rw [Element.contents_cons, recurseAll_append] at h
    obtain ⟨⟨front, s₁⟩, hfront, h⟩ := except_bind_ok h
    obtain ⟨⟨back, s₂⟩, hback, h⟩ := except_bind_ok h
    cases h
    have hl := recurseAll_length hfront
    dsimp only at hfront hl
    have hcells : Element.refillCells cells (front ++ back) = Element.refillCells cells front := by
      rw [← Element.refillCells_take cells (front ++ back), ← hl, List.take_left]
    rw [recurseRows, recurseCells_eq, hfront]
    simp only [Element.refillRows, hcells, ← hl, List.drop_left]
    show (recurseRows again rest s₁ >>= _) = _
    rw [ih hback]
    rfl

/-- Whatever a document is, if it is no list it keeps its shape, and what it holds is gone through
in the order of the document. -/
theorem recurseHeld_of_all {e : Element Document} {span : Option Span} {ds : List Document}
    {s s' : σ} (hl : e.isList = false) (h : recurseAll again e.children s = .ok (ds, s')) :
    recurseHeld again (.node e span) s = .ok (.node (e.refill ds) span, s') := by
  cases e with
  | list members => cases hl
  | wrap w child =>
    cases child with
    | none =>
      cases h
      rfl
    | some child =>
      obtain ⟨⟨new, s₁⟩, hnew, h⟩ := except_bind_ok h
      cases h
      show (again child s >>= _) = _
      rw [hnew]
      rfl
  | table params rows =>
    show (recurseRows again rows s >>= _) = _
    rw [recurseRows_of_all h]
    rfl
  | leaf l =>
    cases h
    rfl

theorem recurseHeld_of_members {e : Element Document} {span : Option Span} {ds : List Document}
    {s s' : σ} (hl : e.isList = true) (h : recurseMembers again e.children s = .ok (ds, s')) :
    recurseHeld again (.node e span) s = .ok (.node (e.refill ds) span, s') := by
  cases e with
  | list members =>
    show (recurseMembers again members s >>= _) = _
    rw [show recurseMembers again members s = .ok (ds, s') from h]
    rfl
  | _ => cases hl

end

/-! ## Deep enough -/

section

variable {decide : Decider σ ε} {d d' : Document} {s s₁ s' : σ}

theorem recurse_list (hl : d.element.isList = true)
    (h : Answers (fun n => recurseHeld (recurse decide n) d s) (d', s')) :
    Answers (fun n => recurse decide n d s) (some d', s') := by
  refine h.succ fun n hn => ?_
  rw [recurse, if_pos hl, hn]
  rfl

theorem recurse_keep (hl : d.element.isList = false) (hd : decide d s = .ok (.keep, s₁))
    (h : Answers (fun n => recurseHeld (recurse decide n) d s₁) (d', s')) :
    Answers (fun n => recurse decide n d s) (some d', s') := by
  refine h.succ fun n hn => ?_
  simp only [recurse, hl, hd, hn, Bool.false_eq_true, if_false]
  rfl

theorem recurse_delete (hl : d.element.isList = false) (hd : decide d s = .ok (.delete, s')) :
    Answers (fun n => recurse decide n d s) (none, s') := by
  refine ⟨1, fun n hn => ?_⟩
  obtain ⟨n, rfl⟩ : ∃ m, n = m + 1 := ⟨n - 1, by omega⟩
  simp only [recurse, hl, hd, Bool.false_eq_true, if_false]
  rfl

theorem recurse_put {new : Document} (hl : d.element.isList = false)
    (hd : decide d s = .ok (.put new, s₁))
    (h : Answers (fun n => recurseHeld (recurse decide n) new s₁) (d', s')) :
    Answers (fun n => recurse decide n d s) (some d', s') := by
  refine h.succ fun n hn => ?_
  simp only [recurse, hl, hd, hn, Bool.false_eq_true, if_false]
  rfl

end

/-! ## Runs and recursion -/

/-- The callback that makes a decision from what is shown at the offered node. -/
def Decider.callback (decide : Decider σ ε) : Callback σ ε := fun id t s => do
  let (verdict, s) ← decide (t.shown id) s
  return (verdict.move, s)

theorem callback_ok {decide : Decider σ ε} {id : NodeId} {t : Tree} {s s' : σ} {m : Move}
    (h : decide.callback id t s = .ok (m, s')) :
    ∃ verdict, decide (t.shown id) s = .ok (verdict, s') ∧ m = verdict.move := by
  obtain ⟨⟨verdict, s₁⟩, hd, h⟩ := except_bind_ok h
  cases h
  exact ⟨verdict, hd, rfl⟩

/-- What is shown below outlines, one after another. -/
def showns (t : Tree) (os : List Outline) : List Document :=
  os.map fun o => t.shown o.id

section

variable {decide : Decider σ ε} {top : Option NodeId}

theorem isList_shown {t : Tree} {stray : List NodeId} {o : Outline} (h : t.Stands stray o) :
    (t.shown o.id).element.isList = (t.element o.id).isList := by
  cases o with
  | node id held =>
    rw [Outline.id_node, Tree.shown_node h.spans h.nodup]
    exact Element.isList_refill _ _

theorem patch_shown (t : Tree) (r : Option Outline) :
    (patch t r).2.shown (patch t r).1.id =
      (r.map fun o => t.shown o.id).getD emptyList := by
  cases r with
  | some o => rfl
  | none =>
    have hs : (patch t none).2.Spans (.node t.size []) := by
      refine .node ?_ ?_ (by simp)
      · simp [patch, Tree.addEmpty]
      · simp [patch, Tree.addEmpty, Tree.element_add, Element.children]
    have hn : (Outline.node t.size []).ids.Nodup := by simp [Outline.ids_node]
    show (patch t none).2.shown t.size = emptyList
    rw [Tree.shown_node hs hn]
    simp [patch, Tree.addEmpty, Tree.element_add, Tree.span_add, Element.refill, emptyList]

/-- What a holder shows once its places were gone through. -/
theorem shown_held {c : Callback σ ε} {p : NodeId} {held held' : List Outline}
    {above : List NodeId} {t t' : Tree} {s s' : σ} {visits : List Visit}
    (hm : t.Midway p [] held above top)
    (hrun : RunHeld c top p [] held above t s held' t' s' visits)
    (hlist : (t.element p).isList = true →
      Answers (fun n => recurseMembers (recurse decide n) (showns t held) s) (showns t' held', s'))
    (hall : (t.element p).isList = false →
      Answers (fun n => recurseAll (recurse decide n) (showns t held) s) (showns t' held', s')) :
    Answers (fun n => recurseHeld (recurse decide n) (t.shown p) s) (t'.shown p, s') := by
  obtain ⟨hchanges, _, hm', _⟩ := run_changes.2 hrun
  obtain ⟨values, htakes, helement⟩ := hchanges.reshaped p hm.inside
  have hspan : t'.span p = t.span p := hchanges.span_eq p hm.inside
  have hbefore : t.shown p = .node ((t.element p).refill (showns t held)) (t.span p) :=
    Tree.shown_node hm.spans hm.nodup
  have hafter : t'.shown p = .node ((t'.element p).refill (showns t' (held' ++ []))) (t'.span p) :=
    Tree.shown_node hm'.spans hm'.nodup
  rw [List.append_nil, helement, Element.refill_refill _ _ _ htakes, hspan] at hafter
  have hl : (t.element p).Takes (showns t held).length := by
    refine Or.inr ?_
    rw [show (t.element p).children = held.map Outline.id from hm.spans.children]
    simp [showns]
  have hc := Element.children_refill _ _ hl
  rw [hbefore, hafter]
  rcases hlist? : (t.element p).isList with _ | _
  · refine (hall hlist?).map fun n hn => ?_
    rw [recurseHeld_of_all (by rw [Element.isList_refill, hlist?]) (by rw [hc]; exact hn),
      Element.refill_refill _ _ _ hl]
  · refine (hlist hlist?).map fun n hn => ?_
    rw [recurseHeld_of_members (by rw [Element.isList_refill, hlist?]) (by rw [hc]; exact hn),
      Element.refill_refill _ _ _ hl]

theorem showns_rest {p : NodeId} {front rest : List Outline} {o : Outline} {above : List NodeId}
    {t t' : Tree} (h : t.Midway p front (o :: rest) above top) (hc : t.Changes t' (p :: o.ids)) :
    showns t' rest = showns t rest := by
  obtain ⟨⟨_, _, hp⟩, _⟩ := Outline.nodup_split.mp h.nodup
  refine List.map_congr_left fun d hd => ?_
  have hs := (h.ahead d (List.mem_cons_of_mem o hd)).1
  refine hc.shown_eq hs.spans hs.nodup fun x hx hm => ?_
  have hmem : x ∈ rest.flatMap Outline.ids := List.mem_flatMap.mpr ⟨d, hd, hx⟩
  rcases List.mem_cons.mp hm with rfl | hm
  · exact hp hmem
  · exact (h.elsewhere (Or.inr (Or.inr hmem))).2 hm

/-- What grew in a place is shown in the end. -/
theorem shown_filled {c : Callback σ ε} {p : NodeId} {front rest held' : List Outline}
    {o o' : Outline} {above : List NodeId} {t t₁ t' : Tree} {s s' : σ} {visits : List Visit}
    (h : t.Midway p front (o :: rest) above top) (hr : t.Regrown t₁ o.ids o')
    (hrest : RunHeld c top p (front ++ [o']) rest above (t₁.refit p front.length o'.id) s held'
      t' s' visits) : t'.shown o'.id = t₁.shown o'.id := by
  obtain ⟨hnext, _⟩ := h.fill hr
  obtain ⟨_, _, hp⟩ := h.child_after hr.changes
  have hn := hnext.nodup
  rw [List.append_assoc, List.singleton_append] at hn
  obtain ⟨⟨_, hpo, _⟩, ⟨_, hno, _⟩, _, _, hdis⟩ := Outline.nodup_split.mp hn
  have hs : (t₁.refit p front.length o'.id).Spans o' := hnext.spans.held o' (by simp)
  have hrefit : (t₁.refit p front.length o'.id).shown o'.id = t₁.shown o'.id := by
    refine Tree.shown_congr hr.spans hr.nodup (by simp) (fun x hx => ?_) (by simp)
    have hxp : x ≠ p := fun he => hpo (he ▸ hx)
    rw [Tree.element_refit hp, if_neg hxp]
  rw [← hrefit]
  refine (run_changes.2 hrest).1.shown_eq hs hno fun x hx hm => ?_
  rcases List.mem_cons.mp hm with rfl | hm
  · exact hpo hx
  · exact hdis hx hm

/-- Runs of a decision do what plain recursion does. -/
theorem run_recursion :
    (∀ {o above t s r t' s' visits}, Run decide.callback top o above t s r t' s' visits →
      Answers (fun n => recurse decide n (t.shown o.id) s)
        (r.map fun o => t'.shown o.id, s')) ∧
    (∀ {p front rest above t s held' t' s' visits},
      RunHeld decide.callback top p front rest above t s held' t' s' visits →
      ∃ mid, held' = front ++ mid ∧
        ((t.element p).isList = true →
          Answers (fun n => recurseMembers (recurse decide n) (showns t rest) s)
            (showns t' mid, s')) ∧
        ((t.element p).isList = false →
          Answers (fun n => recurseAll (recurse decide n) (showns t rest) s)
            (showns t' mid, s'))) := by
  refine run_induct ?_ ?_ ?_ ?_ ?_ ?_
  · rintro id held held' above t t' s s' visits site hl hrest ⟨mid, hmid, hlist, hall⟩
    obtain rfl : held' = mid := hmid
    have hheld := shown_held site.midway hrest hlist hall
    exact recurse_list ((isList_shown site.stands).trans hl) hheld
  · intro o above t s s' m site hl hc ht
    obtain ⟨verdict, hd, rfl⟩ := callback_ok hc
    cases verdict with
    | delete => exact recurse_delete ((isList_shown site.stands).trans hl) hd
    | _ => simp [Verdict.move, Move.take, Move.run] at ht
  · rintro o new held held' above t t₁ t' s s₁ s' m visits site hl hc ht site' hr _ hleads hrest
      ⟨mid, hmid, hlist, hall⟩
    obtain rfl : held' = mid := hmid
    have hheld := shown_held site'.midway hrest hlist hall
    have hl' := (isList_shown site.stands).trans hl
    obtain ⟨verdict, hd, rfl⟩ := callback_ok hc
    cases verdict with
    | keep =>
      obtain ⟨rfl, rfl⟩ := hleads
      exact recurse_keep hl' hd hheld
    | delete => exact hleads.elim
    | put document =>
      obtain ⟨_, hdocument⟩ := hleads
      rw [Outline.id_node] at hdocument
      exact recurse_put hl' hd (hdocument ▸ hheld)
  · intro p front above t s _
    exact ⟨[], by simp, fun _ => ⟨0, fun _ _ => rfl⟩, fun _ => ⟨0, fun _ _ => rfl⟩⟩
  · rintro p front rest held' o above t t₁ t' s s₁ s' r visits later hm hrun hr hg hrest ih
      ⟨mid, hmid, hlist, hall⟩
    obtain ⟨_, hc⟩ := hm.fill hg
    have hshown := shown_filled hm hg hrest
    rw [patch_shown] at hshown
    rw [showns_rest hm hc, hc.isList_eq hm.inside] at hlist hall
    have hshowns : showns t' ((patch t₁ r).1 :: mid) =
        (r.map fun o => t₁.shown o.id).getD emptyList :: showns t' mid := by
      rw [← hshown]
      rfl
    refine ⟨(patch t₁ r).1 :: mid, by rw [hmid]; simp, fun hl => ?_, fun hl => ?_⟩
    · rw [hshowns]
      cases r with
      | none => rw [hr rfl] at hl; cases hl
      | some o' => exact ih.bind ((hlist hl).bind ⟨0, fun _ _ => rfl⟩)
    · rw [hshowns]
      exact ih.bind ((hall hl).bind ⟨0, fun _ _ => rfl⟩)
  · rintro p front rest held' o above t t₁ t' s s₁ s' visits later hm hrun hl hch hrest ih
      ⟨mid, hmid, hlist, hall⟩
    obtain ⟨_, hc⟩ := hm.drop hch hl
    rw [showns_rest hm hc, hc.isList_eq hm.inside] at hlist
    refine ⟨mid, hmid, fun _ => ?_, fun hn => ?_⟩
    · exact ih.bind ((hlist hl).bind ⟨0, fun _ _ => rfl⟩)
    · rw [hl] at hn
      cases hn

end

/-! ## Walks and recursion -/

/-- The offered document of a visit. -/
def Visit.document (v : Visit) : Document := v.tree.shown v.node

theorem callback_traced (decide : Decider σ ε) :
    decide.traced.callback = decide.callback.noting Visit.document := by
  funext id t ⟨s, offered⟩
  simp only [Decider.callback, Decider.traced, Callback.noting, Visit.document]
  rcases decide (t.shown id) s with cause | ⟨verdict, s'⟩ <;> rfl

theorem run_no_wrap {decide : Decider σ ε} {top : Option NodeId} {o : Outline}
    {above : List NodeId} {t t' : Tree} {s s' : σ} {r : Option Outline} {visits : List Visit}
    (h : Run decide.callback top o above t s r t' s' visits) :
    ∀ v ∈ visits, v.move.isWrap = false := by
  intro v hv
  obtain ⟨s, s', hc⟩ := run_decided.1 h v hv
  obtain ⟨verdict, _, hm⟩ := callback_ok hc
  rw [hm]
  cases verdict <;> rfl

/-- For every decision that is made from the offered document and a state, a walk that has an answer
does what plain recursion does: the same documents are offered in the same order, each node once,
and the same document is left. A walk over a whole tree leaves a page without a parent at the top:
what the recursion leaves, or a new page around it with the path and the span of the old top. -/
theorem a_walk_does_what_plain_recursion_does (decide : Decider σ ε) {t : Tree} {id : NodeId}
    (hwell : t.WellFormed id) (fuel : Nat) (s : σ) :
    (∀ {new t' s' visits},
      walk decide.callback.traced.rule fuel id t (s, []) = .ok (new, t', s', visits) →
      Answers (fun depth => recurse decide.traced depth (t.shown id) (s, []))
        (new.map t'.shown, s', visits.map Visit.document) ∧
      (visits.map (·.node)).Nodup ∧ ∀ x, new = some x → t'.WellFormed x) ∧
    (∀ {t' s' visits}, t.root = some id →
      page decide.callback.traced.rule fuel t (s, []) = .ok (t', s', visits) →
      ∃ d top, Answers (fun depth => recurse decide.traced depth (t.shown id) (s, []))
          (d, s', visits.map Visit.document) ∧
        (visits.map (·.node)).Nodup ∧ t'.root = some top ∧ t'.parent top = none ∧
        (t'.element top).isPage = true ∧ t'.WellFormed top ∧
        t'.shown top = paged (t.pagePath id) (t.span id) (d.getD emptyList)) := by
  obtain ⟨o, rfl, hs⟩ := hwell
  have hrecursion : ∀ {r t' s' visits},
      Run decide.callback (t.parent o.id) o [] t s r t' s' visits →
      Answers (fun depth => recurse decide.traced depth (t.shown o.id) (s, []))
        (r.map fun o => t'.shown o.id, s', visits.map Visit.document) := by
    intro r t' s' visits hrun
    have hnoting := (noting_of_run (f := Visit.document)).1 hrun []
    rw [← callback_traced, List.nil_append] at hnoting
    exact run_recursion.1 hnoting
  refine ⟨fun {new t' s' visits} h => ?_, fun {t' s' visits} hroot h => ?_⟩
  · obtain ⟨r, rfl, hrun⟩ := run_of_walk hs.site h
    refine ⟨?_, run_offers_once.1 hrun (run_no_wrap hrun), fun x hx => ?_⟩
    · rw [Option.map_map]
      exact hrecursion hrun
    · obtain ⟨o', rfl, rfl⟩ := Option.map_eq_some_iff.mp hx
      exact ⟨o', rfl, run_stands hrun (run_no_wrap hrun)⟩
  · obtain ⟨r, t₁, hrun, rfl⟩ := page_run hroot hs h
    have hstands := run_stands hrun (run_no_wrap hrun)
    obtain ⟨hcap, htop, hparent, hpage⟩ := cap_stands t o.id hstands (by simp)
    refine ⟨_, _, hrecursion hrun, run_offers_once.1 hrun (run_no_wrap hrun), htop, hparent,
      hpage, ⟨_, rfl, hcap⟩, ?_⟩
    rw [cap_shown t o.id hstands (by simp), patch_shown]

/-- Deletes all texts. -/
def dropTexts : Decider Unit Empty := fun d _ =>
  match d.element with
  | .leaf (.text _) => .ok (.delete, ())
  | _ => .ok (.keep, ())

/-- A heading that holds a document. -/
def headingOf (d : Document) : Document := .node (.wrap (.heading 1) (some d)) none

/-- A text. -/
def loneText : Document := .node (.leaf (.text "x")) none

/-- Without its text, a heading at the top holds an empty list and comes into a new page. -/
theorem a_heading_without_its_text_holds_an_empty_list :
    Answers (fun depth => recurse dropTexts.traced depth (headingOf loneText) ((), []))
      (some (headingOf emptyList), (), [headingOf loneText, loneText]) ∧
    ∃ (t' : Tree) (top : NodeId), t'.root = some top ∧ t'.parent top = none ∧
      t'.shown top = .node (.wrap (.page none) (some (headingOf emptyList))) none := by
  have hwell : (Tree.ofDocument (headingOf loneText)).WellFormed 1 := by
    obtain ⟨o, hroot, hs, _⟩ := Tree.ofDocument_stands (headingOf loneText)
    exact ⟨o, Option.some.inj (hroot.symm.trans rfl), hs⟩
  obtain ⟨hwalk, hpage⟩ := a_walk_does_what_plain_recursion_does dropTexts hwell 8 ()
  obtain ⟨hrec, _⟩ := hwalk
    (show walk dropTexts.callback.traced.rule 8 1 (Tree.ofDocument (headingOf loneText)) ((), []) =
      .ok (_, _, _, _) from rfl)
  obtain ⟨d, top, hrec', _, htop, hparent, _, _, hshown⟩ := hpage rfl
    (show page dropTexts.callback.traced.rule 8 (Tree.ofDocument (headingOf loneText)) ((), []) =
      .ok (_, _, _) from rfl)
  obtain ⟨rfl, _⟩ : some _ = d ∧ _ := Prod.mk.inj (hrec.unique hrec')
  exact ⟨hrec, _, top, htop, hparent, hshown.trans rfl⟩

end WikiHtml.Substitution
