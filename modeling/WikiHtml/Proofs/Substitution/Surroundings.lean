-- What an offered node has around it. The nodes above it are those that it is below in the tree as it
-- has become by then, although none of them holds yet what came into its place: a place is filled when
-- the walk comes back to its holder, and all these places are still open.
import Mathlib.Data.List.Chain
import WikiHtml.Proofs.Substitution.Calls
import WikiHtml.Proofs.Tree.Decoding

namespace WikiHtml.Substitution

variable {σ ε : Type}

/-! ## Open places -/

/-- Of what a node holds, one place is filled with another node. -/
def Fills (t t' : Tree) (x p : NodeId) : Prop :=
  ∃ k < (t.element p).children.length,
    t'.element p = (t.element p).refill ((t.element p).children.set k x)

/-- A part of a tree that grew around a call: `between` are the nodes from the call up to the top of
the part. In the tree of the call each has a place open that is filled in the other tree, and no
other node differs. -/
structure Opened (call : Call) (t' : Tree) (o : Outline) (above : List NodeId)
    (top : Option NodeId) (between : List NodeId) : Prop where
  site : ∃ held, call.tree.Site (.node call.node held) (between ++ above) top
  last : (call.node :: between).getLast? = some o.id
  fills : (call.node :: between).IsChain (Fills call.tree t')
  others : ∀ x ∉ between, t'.element x = call.tree.element x

section

variable {call : Call} {t t₁ : Tree} {p : NodeId} {front rest : List Outline} {c o : Outline}
  {above between : List NodeId} {top : Option NodeId}

theorem Opened.here (h : t.Site o above top) : Opened ⟨t, o.id⟩ t o above top [] := by
  obtain ⟨id, held⟩ := o
  exact ⟨⟨held, h⟩, rfl, .singleton _, fun _ _ => rfl⟩

/-- From a place to its holder. -/
theorem Opened.fill (h : Opened call t₁ o (p :: above) top between)
    (hp : t.Site (.node p (front ++ c :: rest)) above top) (hs : t.Succeeds t₁ c o) :
    Opened call (t₁.refit p front.length o.id) (.node p (front ++ o :: rest)) above top
      (between ++ [p]) := by
  obtain ⟨held, hsite⟩ := h.site
  obtain ⟨helement, _⟩ := hp.midway_at.unchanged hs.regrown.changes
  obtain ⟨hk, _, hin⟩ := hp.midway_at.child_after hs.regrown.changes
  have hdistinct := hsite.distinct
  have hnot : p ∉ between := fun hm =>
    (List.nodup_append'.mp hdistinct).2.2 hm (List.mem_cons_self)
  have hsame : t₁.element p = call.tree.element p := h.others p hnot
  have hrefit : ∀ x, (t₁.refit p front.length o.id).element x = _ := Tree.element_refit hin o.id
  refine ⟨⟨held, ?_⟩, ?_, ?_, fun x hx => ?_⟩
  · rw [List.append_assoc, List.singleton_append]
    exact hsite
  · rw [← List.cons_append, List.getLast?_concat, Outline.id_node]
  · rw [← List.cons_append, List.isChain_append]
    refine ⟨h.fills.imp_of_mem_tail_imp fun x q _ hq hfill => ?_, .singleton _, ?_⟩
    · obtain ⟨k, hlt, heq⟩ := hfill
      have hne : q ≠ p := fun he => hnot (he ▸ hq)
      exact ⟨k, hlt, by rw [hrefit, if_neg hne, heq]⟩
    · intro x hx q hq
      obtain rfl : p = q := by simpa using hq
      obtain rfl : o.id = x := Option.some.inj (h.last.symm.trans hx)
      refine ⟨front.length, ?_, by rw [hrefit, if_pos rfl, hsame]⟩
      rw [← hsame]
      exact (List.getElem?_eq_some_iff.mp hk).1
  · rw [List.mem_append, List.mem_singleton, not_or] at hx
    rw [hrefit, if_neg hx.2, h.others x hx.1]

end

/-! ## Up to a call -/

/-- What is said of a run that ends, and of one that stops at a call. Any other one fails or lacks
fuel. -/
def Goes {α : Type} (left : α → Prop) (halted : Call → Prop) : Except (Stop (ε ⊕ Call)) α → Prop
  | .ok a => left a
  | .error (.fault (.inr call)) => halted call
  | .error _ => True

section

variable {α β : Type} {left : α → Prop} {left' : β → Prop} {halted halted' : Call → Prop}
  {run : Except (Stop (ε ⊕ Call)) α}

theorem Goes.stopped {stop : Stop (ε ⊕ Call)} (h : Goes left halted (.error stop))
    (hhalted : ∀ call, halted call → halted' call) : Goes left' halted' (.error stop) := by
  rcases stop with (cause | call) | _
  · exact trivial
  · exact hhalted call h
  · exact trivial

theorem Goes.bind {next : α → Except (Stop (ε ⊕ Call)) β} (h : Goes left halted run)
    (hnext : ∀ a, run = .ok a → left a → Goes left' halted' (next a))
    (hhalted : ∀ call, halted call → halted' call) : Goes left' halted' (run.bind next) := by
  rcases run with stop | a
  · exact h.stopped hhalted
  · exact hnext a rfl h

theorem Goes.map {f : α → β} (h : Goes left halted run) (hf : ∀ a, left a → left' (f a))
    (hhalted : ∀ call, halted call → halted' call) : Goes left' halted' (run.map f) := by
  rcases run with stop | a
  · exact h.stopped hhalted
  · exact hf a h

theorem Goes.imp {left' : α → Prop} (h : Goes left halted run) (hleft : ∀ a, left a → left' a)
    (hhalted : ∀ call, halted call → halted' call) : Goes left' halted' run := by
  rcases run with stop | a
  · exact h.stopped hhalted
  · exact hleft a h

end

variable (rule : Rule σ ε) (n : Nat) (top : Option NodeId)

/-- What is left of a part that was gone through. -/
def PartLeft (t : Tree) (o : Outline) (answer : Answer (σ × Nat)) : Prop :=
  ∃ r : Option Outline, r.map Outline.id = answer.1 ∧ t.Changes answer.2.1 o.ids ∧
    ∀ o', r = some o' → t.Succeeds answer.2.1 o o'

/-- A walk through a part stops at a call: if all is kept from there on, it ends with what grew
around the call. -/
def PartHalts (t : Tree) (s : σ × Nat) (o : Outline) (above : List NodeId) (call : Call) : Prop :=
  ∃ (o' : Outline) (t' : Tree) (s' : σ × Nat) (between : List NodeId),
    Answers (fun fuel => walk (rule.pausing n) fuel o.id t s) (some o'.id, t', s') ∧ n ≤ s'.2 ∧
    t.Succeeds t' o o' ∧ t'.Site o' above top ∧ Opened call t' o' above top between

/-- What is left of the places of a holder that were gone through. -/
def HeldLeft (t : Tree) (p : NodeId) (front rest : List Outline) (above : List NodeId)
    (left : Tree × (σ × Nat)) : Prop :=
  ∃ mid, t.Refilled left.1 p front rest mid above top

/-- A walk through the places of a holder stops at a call. -/
def HeldHalts (keeping : Nat → Except (Stop (ε ⊕ Call)) (Tree × (σ × Nat))) (t : Tree) (p : NodeId)
    (front rest : List Outline) (above : List NodeId) (call : Call) : Prop :=
  ∃ (mid : List Outline) (t' : Tree) (s' : σ × Nat) (between : List NodeId),
    Answers keeping (t', s') ∧ n ≤ s'.2 ∧ t.Refilled t' p front rest mid above top ∧
    Opened call t' (.node p (front ++ mid)) above top between

/-- With so much fuel, a walk through any part goes so. -/
def WalksGo (fuel : Nat) : Prop :=
  ∀ {o above t s}, t.Site o above top →
    Goes (PartLeft t o) (PartHalts rule n top t s o above) (walk (rule.halting n) fuel o.id t s)

/-- With so much fuel, a walk through any list goes so. -/
def MembersGo (fuel : Nat) : Prop :=
  ∀ {p front rest above t s}, t.Site (.node p (front ++ rest)) above top →
    (t.element p).isList = true →
    Goes (HeldLeft top t p front rest above)
      (HeldHalts n top (fun fuel => walkMembers (rule.pausing n) fuel p front.length t s) t p front
        rest above)
      (walkMembers (rule.halting n) fuel p front.length t s)

/-- With so much fuel, a walk through any table goes so. -/
def PlacesGo (fuel : Nat) : Prop :=
  ∀ {p front rest above t s params rows}, t.Site (.node p (front ++ rest)) above top →
    OnTable t p front rest params rows →
    Goes (HeldLeft top t p front rest above)
      (HeldHalts n top
        (fun fuel => walkPlaces (rule.pausing n) fuel p ((places rows).drop front.length) t s) t p
        front rest above)
      (walkPlaces (rule.halting n) fuel p ((places rows).drop front.length) t s)

section

variable {rule n top} {t t₁ : Tree} {s : σ × Nat} {p : NodeId} {front rest held : List Outline}
  {c o : Outline} {above : List NodeId} {call : Call} {fuel : Nat}
  {keeping later : Nat → Except (Stop (ε ⊕ Call)) (Tree × (σ × Nat))}

/-! ## One place -/

theorem HeldLeft.fill (h : t.Site (.node p (front ++ c :: rest)) above top) (hs : t.Succeeds t₁ c o)
    {left : Tree × (σ × Nat)}
    (hrest : HeldLeft top (t₁.refit p front.length o.id) p (front ++ [o]) rest above left) :
    HeldLeft top t p front (c :: rest) above left := by
  obtain ⟨mid, hmid⟩ := hrest
  exact ⟨_, .fill h hs hmid⟩

theorem HeldLeft.drop (h : t.Site (.node p (front ++ c :: rest)) above top)
    (hc : t.Changes t₁ c.ids) (hl : (t.element p).isList = true) {left : Tree × (σ × Nat)}
    (hrest : HeldLeft top (t₁.takeOut p front.length) p front rest above left) :
    HeldLeft top t p front (c :: rest) above left := by
  obtain ⟨mid, hmid⟩ := hrest
  exact ⟨_, .drop h hc hl hmid⟩

/-- A call behind a place that was filled. -/
theorem HeldHalts.fill (h : t.Site (.node p (front ++ c :: rest)) above top)
    (hs : t.Succeeds t₁ c o) (hkeep : ∀ left, Answers later left → Answers keeping left)
    (hrest : HeldHalts n top later (t₁.refit p front.length o.id) p (front ++ [o]) rest above call) :
    HeldHalts n top keeping t p front (c :: rest) above call := by
  obtain ⟨mid, t', s', between, hanswers, hn, hmid, hopened⟩ := hrest
  rw [List.append_assoc, List.singleton_append] at hopened
  exact ⟨_, t', s', between, hkeep _ hanswers, hn, .fill h hs hmid, hopened⟩

/-- A call behind a member that was deleted. -/
theorem HeldHalts.drop (h : t.Site (.node p (front ++ c :: rest)) above top)
    (hc : t.Changes t₁ c.ids) (hl : (t.element p).isList = true)
    (hkeep : ∀ left, Answers later left → Answers keeping left)
    (hrest : HeldHalts n top later (t₁.takeOut p front.length) p front rest above call) :
    HeldHalts n top keeping t p front (c :: rest) above call := by
  obtain ⟨mid, t', s', between, hanswers, hn, hmid, hopened⟩ := hrest
  exact ⟨_, t', s', between, hkeep _ hanswers, hn, .drop h hc hl hmid, hopened⟩

/-- A call in a place: the place is filled with what grew around the call, and those behind it are
kept. -/
theorem HeldHalts.inside (h : t.Site (.node p (front ++ c :: rest)) above top)
    (hc : PartHalts rule n top t s c (p :: above) call)
    (hkeep : ∀ (o : Outline) (t₁ : Tree) (s₁ : σ × Nat), t.Succeeds t₁ c o →
      Answers (fun fuel => walk (rule.pausing n) fuel c.id t s) (some o.id, t₁, s₁) →
      (t₁.refit p front.length o.id).Site (.node p (front ++ [o] ++ rest)) above top →
      (∀ d ∈ rest, Idle (rule.pausing n) (t₁.refit p front.length o.id) s₁ d.id) →
      Answers keeping (t₁.refit p front.length o.id, s₁)) :
    HeldHalts n top keeping t p front (c :: rest) above call := by
  obtain ⟨o, t₁, s₁, between, hanswers, hn, hs, _, hopened⟩ := hc
  obtain ⟨hsite, _⟩ := h.fill hs
  -- The places behind hold what they held, and no calls are left to be counted.
  have hidle : ∀ d ∈ rest, Idle (rule.pausing n) (t₁.refit p front.length o.id) s₁ d.id :=
    fun d hd => walk_idle (hsite.held (by simp [hd])) hn
  have hnext := hsite
  rw [List.append_cons] at hnext
  exact ⟨o :: rest, _, s₁, _, hkeep o t₁ s₁ hs hanswers hnext hidle, hn, .fill h hs (.refl hnext),
    hopened.fill h hs⟩

theorem listSet_succeeds (h : t.Site (.node p (front ++ c :: rest)) above top)
    (hl : (t.element p).isList = true) (hs : t.Succeeds t₁ c o) :
    t₁.listSet p front.length o.id = t₁.refit p front.length o.id ∧
      ((t₁.refit p front.length o.id).element p).isList = true := by
  refine ⟨Tree.listSet_eq_refit ((h.midway_at.unchanged hs.regrown.changes).1 ▸ hl) _ _, ?_⟩
  exact ((h.fill hs).2.isList_eq h.stands.spans.inside).trans hl

theorem OnTable.succeeds {params : Option String} {rows : List (Row NodeId)} {place : Place}
    {more : List Place} (ht : OnTable t p front (c :: rest) params rows)
    (h : t.Site (.node p (front ++ c :: rest)) above top)
    (hk : (places rows).drop front.length = place :: more) (hs : t.Succeeds t₁ c o) :
    t₁.setCellContent p place.1 place.2.1 (some o.id) = t₁.refit p front.length o.id ∧
      OnTable (t₁.refit p front.length o.id) p (front ++ [o]) rest params rows ∧
      (places rows).drop (front ++ [o]).length = more :=
  ht.fill (h.midway_at.unchanged hs.regrown.changes).1
    (h.midway_at.child_after hs.regrown.changes).2.2 hk o

/-- What was left of a part, or an empty list, may come into its place. -/
theorem PartLeft.patch {answer : Answer (σ × Nat)} (h : PartLeft t c answer) (hc : t.Spans c) :
    ∃ r, r.map Outline.id = answer.1 ∧
      t.Succeeds (patch answer.2.1 r).2 c (patch answer.2.1 r).1 := by
  obtain ⟨r, hr, hchanges, hsucceeds⟩ := h
  cases r with
  | none => exact ⟨none, hr, .empty hchanges hc⟩
  | some o => exact ⟨some o, hr, hsucceeds o rfl⟩

/-! ## One step of a walk -/

theorem membersGo_succ (hw : WalksGo rule n top fuel) (hms : MembersGo rule n top fuel) :
    MembersGo rule n top (fuel + 1) := by
  intro p front rest above t s hm hl
  rw [walkMembers_succ, members_eq hl]
  rcases rest with _ | ⟨c, rest⟩
  · rw [List.getElem?_eq_none (by simp [hm.stands.spans.children])]
    exact ⟨[], .refl hm⟩
  · have hmid := hm.midway_at
    have hstep : ∀ m, walkMembers (rule.pausing n) (m + 1) p front.length t s = _ := fun m =>
      walkMembers_succ (rule.pausing n) m p front.length t s
    simp only [members_eq hl, hmid.child] at hstep
    rw [hmid.child]
    refine (hw hmid.site).bind (fun answer hanswer hleft => ?_) fun call hcall => ?_
    · obtain ⟨new, t₁, s₁⟩ := answer
      have hkept := walk_pausing_of_halting hanswer
      obtain ⟨r, rfl, hchanges, hsucceeds⟩ := hleft
      cases r with
      | none =>
        obtain ⟨hsite, hc⟩ := hm.drop hchanges hl
        refine (hms hsite ((hc.isList_eq hmid.inside).trans hl)).imp
          (fun left h => .drop hm hchanges hl h) fun call h => .drop hm hchanges hl ?_ h
        refine fun left hlater => hkept.both hlater fun m hwalk hnext => ?_
        rw [hstep, hwalk]
        exact hnext
      | some o =>
        have hs := hsucceeds o rfl
        obtain ⟨hsite, _⟩ := hm.fill hs
        obtain ⟨hset, hlist⟩ := listSet_succeeds hm hl hs
        rw [List.append_cons] at hsite
        have hgo := hms (s := s₁) hsite hlist
        rw [List.length_append] at hgo
        dsimp only [Option.map_some]
        rw [hset]
        refine hgo.imp (fun left h => .fill hm hs h) fun call h => .fill hm hs ?_ h
        refine fun left hlater => hkept.both hlater fun m hwalk hnext => ?_
        rw [hstep, hwalk]
        simp only [Except.bind, Option.map_some, hset]
        exact hnext
    · refine .inside hm hcall fun o t₁ s₁ hs hanswers hnext hidle => ?_
      obtain ⟨hset, hlist⟩ := listSet_succeeds hm hl hs
      refine hanswers.both (members_idle hnext hlist hidle) fun m hwalk hrest => ?_
      rw [List.length_append] at hrest
      rw [hstep, hwalk]
      simp only [Except.bind, hset]
      exact hrest

theorem placesGo_succ (hw : WalksGo rule n top fuel) (hps : PlacesGo rule n top fuel) :
    PlacesGo rule n top (fuel + 1) := by
  intro p front rest above t s params rows hm ht
  have hids := ht.places_ids
  rcases hpl : (places rows).drop front.length with _ | ⟨place, more⟩
  · rw [hpl, List.map_nil, eq_comm, List.map_eq_nil_iff] at hids
    subst hids
    rw [walkPlaces]
    exact ⟨[], .refl hm⟩
  · rcases rest with _ | ⟨c, rest⟩
    · simp [hpl] at hids
    · have hmid := hm.midway_at
      rw [hpl, List.map_cons, List.map_cons, List.cons.injEq] at hids
      have hstep : ∀ m, walkPlaces (rule.pausing n) (m + 1) p (place :: more) t s = _ := fun m =>
        walkPlaces_cons (rule.pausing n) m p place more t s
      rw [hids.1] at hstep
      rw [walkPlaces_cons, hids.1]
      refine (hw hmid.site).bind (fun answer hanswer hleft => ?_) fun call hcall => ?_
      · have hkept := walk_pausing_of_halting hanswer
        obtain ⟨r, hr, hs⟩ := hleft.patch hmid.site.stands.spans
        obtain ⟨new, t₁, s₁⟩ := answer
        obtain rfl : r.map Outline.id = new := hr
        obtain ⟨hsite, _⟩ := hm.fill hs
        obtain ⟨hset, ht', hmore⟩ := ht.succeeds hm hpl hs
        rw [List.append_cons] at hsite
        have hgo := hps (s := s₁) hsite ht'
        rw [hmore] at hgo
        simp only [orEmpty_eq_patch, hset]
        refine hgo.imp (fun left h => .fill hm hs h) fun call h => .fill hm hs ?_ h
        refine fun left hlater => hkept.both hlater fun m hwalk hnext => ?_
        rw [hstep, hwalk]
        simp only [Except.bind, orEmpty_eq_patch, hset]
        exact hnext
      · refine .inside hm hcall fun o t₁ s₁ hs hanswers hnext hidle => ?_
        obtain ⟨hset, ht', hmore⟩ := ht.succeeds hm hpl hs
        have hrest := places_idle hnext ht' hidle
        rw [hmore] at hrest
        refine hanswers.both hrest fun m hwalk hrest => ?_
        rw [hstep, hwalk]
        simp only [Except.bind, orEmpty, hset]
        exact hrest

/-- What a node holds is gone through in the same way, whatever the node is. -/
theorem descend_goes (hw : WalksGo rule n top fuel) (hms : MembersGo rule n top fuel)
    (hps : PlacesGo rule n top fuel) (hm : t.Site (.node p held) above top) :
    Goes (HeldLeft top t p [] held above)
      (HeldHalts n top (fun fuel => descend (rule.pausing n) fuel p t s) t p [] held above)
      (descend (rule.halting n) fuel p t s) := by
  have hchildren : (t.element p).children = held.map Outline.id := hm.stands.spans.children
  have hstart : t.Site (.node p ([] ++ held)) above top := hm
  unfold descend
  cases he : t.element p with
  | list members => exact hms hstart (by rw [he]; rfl)
  | wrap w child =>
    rw [he] at hchildren
    cases child with
    | none =>
      obtain rfl : held = [] := by simpa [Element.children] using hchildren.symm
      exact ⟨[], .refl hm⟩
    | some child =>
      obtain ⟨c, rfl, rfl⟩ : ∃ c, held = [c] ∧ c.id = child := by
        simpa [Element.children, List.map_eq_singleton_iff, eq_comm] using hchildren
      have hmid := hm.midway
      refine (hw hmid.site).bind (fun answer _ hleft => ?_) fun call hcall => ?_
      · obtain ⟨r, hr, hs⟩ := hleft.patch hmid.site.stands.spans
        obtain ⟨new, t₁, s₁⟩ := answer
        obtain rfl : r.map Outline.id = new := hr
        obtain ⟨hsite, _⟩ := hstart.fill hs
        have hset := Tree.setChild_eq_refit ((hmid.unchanged hs.regrown.changes).1.trans he)
        simp only [orEmpty_eq_patch, hset]
        exact HeldLeft.fill hstart hs ⟨[], .refl hsite⟩
      · refine .inside hstart hcall fun o t₁ s₁ hs hanswers _ _ => ?_
        have hset := Tree.setChild_eq_refit ((hmid.unchanged hs.regrown.changes).1.trans he)
        refine hanswers.map fun m hwalk => ?_
        simp only [hwalk, bind, Except.bind, orEmpty, hset]
        rfl
  | table params rows => exact hps hstart (.start he hchildren)
  | leaf l =>
    rw [he] at hchildren
    obtain rfl : held = [] := by simpa [Element.children] using hchildren.symm
    exact ⟨[], .refl hm⟩

/-- Where a node stays or another one takes its place, the part that can be entered next is in good
order, below the same nodes. -/
theorem offer_goes (hfresh : rule.Fresh) (hm : t.Site o above top) :
    Goes (fun answer => (answer.1 = none ∧ t.Changes answer.2.1 o.ids) ∨
        ∃ o', answer.1 = some o'.id ∧ answer.2.1.Site o' above top ∧ t.Succeeds answer.2.1 o o')
      (fun call => call = ⟨t, o.id⟩ ∧ n ≤ s.2) (offer (rule.halting n) o.id t s) := by
  rcases hl : (t.element o.id).isList with _ | _
  · rcases Nat.lt_or_ge s.2 n with hn | hn
    · rw [Rule.halting, offer_upTo_rule _ hl hn]
      rcases hrule : rule o.id t s.1 with cause | ⟨new, t', s'⟩
      · exact trivial
      · obtain ⟨hchanges, hnew⟩ := hfresh o.id t s.1 new t' s' ⟨o, rfl, hm.stands⟩ hrule
        have hown : t.Changes t' o.ids := hchanges.mono (by simp)
        rcases new with _ | new
        · exact Or.inl ⟨rfl, hown⟩
        · right
          rcases hnew new rfl with rfl | ⟨o', rfl, hs, hadded⟩
          -- A node that is kept has its parent already; one that was added gets it here, before
          -- anything holds it.
          · have hs : t'.Stands [] o := hm.stands.congr hchanges (by simp) (by simp)
            have hr : t.Regrown t' o.ids o := ⟨hown, hs.spans, hs.nodup, fun x hx => Or.inl hx⟩
            have hinside : ∀ x ∈ o.id :: above, x < t.size := fun x hx =>
              (List.mem_cons.mp hx).elim (fun he => he ▸ hm.stands.spans.inside) fun hx =>
                (hm.apart x hx).1
            refine ⟨o, rfl, ?_, ⟨?_, ?_, Or.inl rfl⟩⟩ <;> dsimp only <;> rw [if_pos rfl]
            · refine ⟨hs, hm.chain.congr fun x hx => ?_, hm.distinct, fun x hx => ?_⟩
              · exact hchanges.parent_eq x (hinside x hx) (by simp)
              · exact ⟨Nat.lt_of_lt_of_le (hm.apart x hx).1 hchanges.size_le, (hm.apart x hx).2⟩
            · exact hr
            · exact hs
          · have hin := hm.stands.spans.inside
            have hnot : o.id ∉ o'.ids := fun hx => Nat.not_le.mpr hin (hadded _ hx)
            have hne : o'.id ≠ o.id := fun he => hnot (he ▸ o'.id_mem_ids)
            obtain ⟨hsite, hr⟩ := site_of_stands hm hown hs fun x hx => Or.inr (hadded x hx)
            refine ⟨o', rfl, ?_, ⟨?_, ?_, Or.inr hnot⟩⟩ <;> dsimp only <;> rw [if_neg hne]
            · exact hsite
            · exact hr
            · exact hsite.stands
    · rw [offer_halting hl hn]
      exact ⟨rfl, hn⟩
  · rw [offer_list s hl]
    exact Or.inr ⟨o, rfl, hm, .refl hm.stands⟩

theorem walksGo_succ (hfresh : rule.Fresh) (hw : WalksGo rule n top fuel)
    (hms : MembersGo rule n top fuel) (hps : PlacesGo rule n top fuel) :
    WalksGo rule n top (fuel + 1) := by
  intro o above t s hm
  rw [walk_succ]
  refine (offer_goes hfresh hm).bind (fun answer hanswer hleft => ?_) fun call hcall => ?_
  · have hoffer := offer_pausing_of_halting hanswer
    obtain ⟨new, t₁, s₁⟩ := answer
    rcases hleft with ⟨rfl, hchanges⟩ | ⟨⟨p, held⟩, rfl, hsite, hs⟩
    · exact ⟨none, rfl, hchanges, fun o' ho' => by cases ho'⟩
    · refine (descend_goes hw hms hps hsite).map (fun left hheld => ?_) fun call hheld => ?_
      · obtain ⟨mid, hmid⟩ := hheld
        have hsucceeds := hs.refilled hm.stands.spans hmid
        refine ⟨some (.node p mid), rfl, hsucceeds.regrown.changes, fun o' ho' => ?_⟩
        exact Option.some.inj ho' ▸ hsucceeds
      · obtain ⟨mid, t', s', between, hanswers, hn, hmid, hopened⟩ := hheld
        refine ⟨.node p mid, t', s', between, hanswers.succ fun m hdescend => ?_, hn,
          hs.refilled hm.stands.spans hmid, hmid.site, hopened⟩
        rw [walk_succ, hoffer]
        simp only [Except.bind, Outline.id_node, hdescend]
        rfl
  · obtain ⟨rfl, hn⟩ := hcall
    exact ⟨o, t, s, [], walk_idle hm hn, hn, .refl hm.stands, hm, .here hm⟩

end

/-- A walk by a rule that adds what it puts in goes so, however much fuel it has. -/
theorem walks_go {rule : Rule σ ε} (hfresh : rule.Fresh) (fuel : Nat) :
    WalksGo rule n top fuel ∧ MembersGo rule n top fuel ∧ PlacesGo rule n top fuel := by
  induction fuel with
  | zero =>
    refine ⟨fun _ => ?_, fun _ _ => ?_, fun _ _ => ?_⟩
    · rw [walk]
      exact trivial
    · rw [walkMembers]
      exact trivial
    · rw [walkPlaces]
      exact trivial
  | succ fuel ih =>
    obtain ⟨hw, hms, hps⟩ := ih
    exact ⟨walksGo_succ hfresh hw hms hps, membersGo_succ hw hms, placesGo_succ hw hps⟩

/-! ## Whole trees -/

/-- What an offered node has around it, from the node that holds it up to the top: `t'` is the tree
as it has become by then, where all has come into its place. The tree of the call differs from it
only in the places that are still open. Going up from the node one passes what is around it, so the
nearest page is the innermost one there, and the outermost one is the top, if that is a page. -/
structure Surrounded (call : Call) (t' : Tree) (above : List NodeId) (top : NodeId) : Prop where
  wellFormed : t'.WellFormed top
  loose : t'.parent top = none
  last : (call.node :: above).getLast? = some top
  distinct : (call.node :: above).Nodup
  holders : (call.node :: above).IsChain fun x p => x ∈ (t'.element p).children
  fills : (call.node :: above).IsChain (Fills call.tree t')
  others : ∀ x ∉ above, t'.element x = call.tree.element x
  chain : call.tree.Chain call.node above none
  nearest : call.tree.contextPage call.node false =
    (call.node :: above).find? fun x => (t'.element x).isPage
  outermost : call.tree.contextPage call.node true =
    if (t'.element top).isPage then some top else none
  ends : ∀ global steps, above.length < steps →
    call.tree.contextWithin global steps call.node = call.tree.contextPage call.node global

section

variable {call : Call} {t' : Tree} {o : Outline} {above : List NodeId}

theorem Fills.mem {t : Tree} {x p : NodeId} (h : Fills t t' x p) :
    x ∈ (t'.element p).children := by
  obtain ⟨k, hk, he⟩ := h
  rw [he, Element.children_refill _ _ (Tree.takes_set ..)]
  exact List.mem_set hk x

theorem exists_before {R : NodeId → NodeId → Prop} {a : NodeId} {l : List NodeId}
    (h : (a :: l).IsChain R) {x : NodeId} (hx : x ∈ l) : ∃ y, R y x := by
  induction l generalizing a with
  | nil => cases hx
  | cons b rest ih =>
    rw [List.isChain_cons_cons] at h
    rcases List.mem_cons.mp hx with rfl | hx
    · exact ⟨a, h.1⟩
    · exact ih h.2 hx

/-- A place that is filled does not make a page or unmake one. -/
theorem Opened.isPage_eq (h : Opened call t' o [] none above) (x : NodeId) :
    (t'.element x).isPage = (call.tree.element x).isPage := by
  by_cases hx : x ∈ above
  · obtain ⟨y, k, _, he⟩ := exists_before h.fills hx
    rw [he, Element.isPage_refill]
  · rw [h.others x hx]

theorem Opened.surrounded (h : Opened call t' o [] none above) (hs : t'.Site o [] none) :
    Surrounded call t' above o.id := by
  obtain ⟨held, hsite⟩ := h.site
  rw [List.append_nil] at hsite
  have hchain : call.tree.Chain call.node above none := hsite.chain
  have hlength : above.length < call.tree.size := hsite.length_above
  refine ⟨⟨o, rfl, hs.stands⟩, hs.chain, h.last, ?_, h.fills.imp fun _ _ hf => hf.mem, h.fills,
    h.others, hchain, ?_, ?_, fun global steps hsteps => ?_⟩
  · refine List.nodup_cons.mpr ⟨fun hm => (hsite.apart _ hm).2 ?_, hsite.distinct⟩
    exact (Outline.node call.node held).id_mem_ids
  · rw [Tree.contextPage, Tree.contextWithin_eq_find hchain hlength]
    simp only [h.isPage_eq]
  · rw [Tree.contextPage, Tree.contextWithin_global hchain hlength h.last, h.isPage_eq]
  · rw [Tree.contextPage]
    cases global with
    | false =>
      rw [Tree.contextWithin_eq_find hchain hsteps, Tree.contextWithin_eq_find hchain hlength]
    | true =>
      rw [Tree.contextWithin_global hchain hsteps h.last,
        Tree.contextWithin_global hchain hlength h.last]

end

/-- At each call that a substitution makes, for a rule that adds what it puts in, the nodes above the
offered one are those around it in the tree as it has become by then, up to the top of that tree. -/
theorem offered_nodes_see_what_is_around_them {rule : Rule σ ε} (hfresh : rule.Fresh) {d : Document}
    {t : Tree} (hdecoded : Tree.ofDocument? d = .ok t) (s : σ) (n : Nat) {call : Call}
    (hcall : rule.Calls t s n call) :
    ∃ above top t', rule.Makes t s n top t' ∧ Surrounded call t' above top := by
  obtain ⟨o, ho⟩ := Tree.holds_of_ofDocument? hdecoded
  have hsite : t.Site o [] none := ho.loose ▸ ho.stands.site
  obtain ⟨fuel, hpage⟩ := hcall
  have hgoes := (walks_go n none hfresh fuel).1 (s := (s, 0)) hsite
  simp only [page, ho.root_eq] at hpage
  rcases hwalk : walk (rule.halting n) fuel o.id t (s, 0) with stop | answer
  · rw [hwalk] at hpage hgoes
    obtain rfl : stop = .fault (.inr call) := Except.error.inj hpage
    obtain ⟨o', t', s', above, hanswers, _, _, hsite', hopened⟩ := hgoes
    exact ⟨above, o'.id, t', ⟨o.id, s', ho.root_eq, hanswers⟩, hopened.surrounded hsite'⟩
  · rw [hwalk] at hpage
    cases hpage

/-- The text of a page that was put into another one sees both pages, while the list that asked for
the page still holds what asked for it. -/
theorem a_text_of_an_included_page_sees_both_pages :
    let r := Repository.empty.insert "/q" (.node (.leaf (.text "x")) none)
    let asking : Document := .node (.list [.node (.leaf (.includePage "/q")) none]) none
    let t := Tree.ofDocument (.node (.wrap (.page (some "/p")) (some asking)) none)
    let call : Call := ⟨⟨#[⟨.leaf (.includePage "/q"), none, some 1⟩, ⟨.list [0], none, some 2⟩,
      ⟨.wrap (.page (some "/p")) (some 1), none, none⟩, ⟨.leaf (.text "x"), none, some 4⟩,
      ⟨.wrap (.page (some "/q")) (some 3), none, some 1⟩], some 2⟩, 3⟩
    (Pass.rule (inclusion r)).Calls t () 2 call ∧
      call.tree.contextPage 3 false = some 4 ∧ call.tree.contextPage 3 true = some 2 ∧
      ∃ above top t', (Pass.rule (inclusion r)).Makes t () 2 top t' ∧
        Surrounded call t' above top := by
  intro r asking t call
  have hcall : (Pass.rule (inclusion r)).Calls t () 2 call := ⟨10, by decide +kernel⟩
  exact ⟨hcall, by decide, by decide, offered_nodes_see_what_is_around_them (pass_rule_fresh _)
    (d := .node (.wrap (.page (some "/p")) (some asking)) none) rfl () 2 hcall⟩

end WikiHtml.Substitution
