-- The calls that a substitution makes. A rule that stops at a call tells the node that is offered and
-- the tree as it is then; a rule that keeps all nodes from that call on tells what was made of the tree
-- by then, since to keep a node changes nothing but that the walk comes to its end.
import WikiHtml.Proofs.Substitution.Walks
import WikiHtml.Proofs.Tree.Copies
import WikiHtml.Proofs.Tree.Filling
import WikiHtml.Proofs.Tree.Links
import WikiHtml.Substitution.Pass

namespace WikiHtml.Substitution

variable {σ ε : Type}

/-! ## Rules that add what they put in -/

/-- The part below a node is in good order, and all of it was added. -/
def Added (t t' : Tree) (id : NodeId) : Prop :=
  ∃ o : Outline, o.id = id ∧ t'.Stands [] o ∧ ∀ x ∈ o.ids, t.size ≤ x

theorem added_addDocument (t : Tree) (d : Document) :
    Added t (t.addDocument d).2 (t.addDocument d).1 := by
  obtain ⟨o, hid, ho⟩ := t.addDocument_planted d
  exact ⟨o, hid, ho.stands o (by simp), fun x hx => ((ho.fresh x).mp (by simpa using hx)).1⟩

/-- A rule that keeps the offered node, deletes it, or puts in a part that it has added. It may add
other nodes as well, but it changes none that was there. -/
def Rule.Fresh (rule : Rule σ ε) : Prop :=
  ∀ id t s new t' s', t.WellFormed id → rule id t s = .ok (new, t', s') →
    t.Changes t' [] ∧ ∀ x, new = some x → x = id ∨ Added t t' x

/-- Whatever a pass puts in, it adds. -/
theorem pass_rule_fresh (pass : Pass) : (Pass.rule pass).Fresh := by
  intro id t s new t' s' _ h
  rcases hp : pass t id with cause | verdict
  · simp only [Pass.rule, hp] at h
    cases h
  · simp only [Pass.rule, hp] at h
    cases verdict with
    | keep =>
      cases h
      exact ⟨.refl t _, fun x hx => Or.inl (Option.some.inj hx).symm⟩
    | delete =>
      cases h
      exact ⟨.refl t _, fun x hx => by cases hx⟩
    | put document =>
      cases h
      refine ⟨Tree.changes_addDocument t document, fun x hx => Or.inr ?_⟩
      exact Option.some.inj hx ▸ added_addDocument t document

/-! ## One call after another -/

/-- A call of a rule: the offered node, and the tree as it is then. -/
structure Call where
  tree : Tree
  node : NodeId
  deriving DecidableEq

/-- The rule for so many calls, which are counted; then `later` says what is done. -/
def Rule.upTo (rule : Rule σ ε) (n : Nat) (later : Rule (σ × Nat) (ε ⊕ Call)) :
    Rule (σ × Nat) (ε ⊕ Call) := fun id t (s, count) =>
  if count < n then
    match rule id t s with
    | .error cause => .error (.inl cause)
    | .ok (new, t, s) => .ok (new, t, s, count + 1)
  else later id t (s, count)

/-- The rule that stops with the call that comes after so many others. -/
def Rule.halting (rule : Rule σ ε) (n : Nat) : Rule (σ × Nat) (ε ⊕ Call) :=
  rule.upTo n fun id t _ => .error (.inr ⟨t, id⟩)

/-- The rule that keeps all nodes after so many calls. -/
def Rule.pausing (rule : Rule σ ε) (n : Nat) : Rule (σ × Nat) (ε ⊕ Call) :=
  rule.upTo n fun id t s => .ok (some id, t, s)

/-- The call that a substitution makes after so many others. -/
def Rule.Calls (rule : Rule σ ε) (t : Tree) (s : σ) (n : Nat) (call : Call) : Prop :=
  ∃ fuel, page (rule.halting n) fuel t (s, 0) = .error (.fault (.inr call))

/-- What a substitution makes of a tree by so many calls: the node that comes to the top, and the
tree in which all has come into its place. -/
def Rule.Makes (rule : Rule σ ε) (t : Tree) (s : σ) (n : Nat) (top : NodeId) (t' : Tree) : Prop :=
  ∃ root s', t.root = some root ∧
    Answers (fun fuel => walk (rule.pausing n) fuel root t (s, 0)) (some top, t', s')

section

variable {rule : Rule σ ε} {n : Nat} {t : Tree} {s : σ × Nat} {id : NodeId}

theorem offer_upTo_rule (later : Rule (σ × Nat) (ε ⊕ Call)) (hl : (t.element id).isList = false)
    (hn : s.2 < n) : offer (rule.upTo n later) id t s =
      match rule id t s.1 with
      | .error cause => .error (.fault (.inl cause))
      | .ok (none, t', s') => .ok (none, t', s', s.2 + 1)
      | .ok (some new, t', s') =>
        .ok (some new, if new = id then t' else t'.setParent new (t.parent id), s', s.2 + 1) := by
  rw [offer, if_neg (by simp [hl]), Rule.upTo, if_pos hn]
  rcases rule id t s.1 with cause | ⟨_ | new, t', s'⟩ <;> rfl

theorem offer_halting (hl : (t.element id).isList = false) (hn : n ≤ s.2) :
    offer (rule.halting n) id t s = .error (.fault (.inr ⟨t, id⟩)) := by
  rw [offer, if_neg (by simp [hl]), Rule.halting, Rule.upTo, if_neg (Nat.not_lt.mpr hn)]

theorem offer_pausing (hn : n ≤ s.2) : offer (rule.pausing n) id t s = .ok (some id, t, s) := by
  rcases hl : (t.element id).isList with _ | _
  · rw [offer, if_neg (by simp [hl]), Rule.pausing, Rule.upTo, if_neg (Nat.not_lt.mpr hn)]
    simp
  · exact offer_list s hl

/-- To stop at a call, or for want of fuel. -/
def Halts (stop : Stop (ε ⊕ Call)) : Prop :=
  stop = .outOfFuel ∨ ∃ call, stop = .fault (.inr call)

theorem halting_unless_pausing (rule : Rule σ ε) (n : Nat) :
    RulesUnless Halts (rule.halting n) (rule.pausing n) := by
  intro id t s
  rcases hl : (t.element id).isList with _ | _
  · rcases Nat.lt_or_ge s.2 n with hn | hn
    · right
      rw [Rule.halting, Rule.pausing, offer_upTo_rule _ hl hn, offer_upTo_rule _ hl hn]
    · exact Or.inl ⟨_, Or.inr ⟨_, rfl⟩, offer_halting hl hn⟩
  · right
    rw [offer_list s hl, offer_list s hl]

theorem offer_pausing_of_halting {answer : Answer (σ × Nat)}
    (h : offer (rule.halting n) id t s = .ok answer) :
    offer (rule.pausing n) id t s = .ok answer := by
  rcases halting_unless_pausing rule n id t s with ⟨_, _, he⟩ | he
  · rw [h] at he
    cases he
  · exact he.symm.trans h

/-- Where no call was met that is stopped at, it makes no difference what would be done with it. -/
theorem walk_pausing_of_halting {fuel : Nat} {answer : Answer (σ × Nat)}
    (h : walk (rule.halting n) fuel id t s = .ok answer) :
    Answers (fun fuel => walk (rule.pausing n) fuel id t s) answer := by
  refine ⟨fuel, fun m hm => ?_⟩
  obtain ⟨extra, rfl⟩ := Nat.exists_eq_add_of_le' hm
  have hunless := (walk_unless (halting_unless_pausing rule n) extra (Or.inl (Or.inl rfl)) fuel).1
  rcases hunless id t s with ⟨_, _, he⟩ | he
  · rw [h] at he
    cases he
  · exact he.symm.trans h

end

/-! ## Keeping all nodes -/

theorem Answers.both {α β γ : Type} {run : Nat → Except (Stop ε) α} {run' : Nat → Except (Stop ε) β}
    {whole : Nat → Except (Stop ε) γ} {a : α} {b : β} {c : γ} (h : Answers run a)
    (h' : Answers run' b) (hstep : ∀ n, run n = .ok a → run' n = .ok b → whole (n + 1) = .ok c) :
    Answers whole c := by
  obtain ⟨fuel, h⟩ := h
  obtain ⟨fuel', h'⟩ := h'
  refine ⟨max fuel fuel' + 1, fun n hn => ?_⟩
  obtain ⟨n, rfl⟩ : ∃ m, n = m + 1 := ⟨n - 1, by omega⟩
  exact hstep n (h n (by omega)) (h' n (by omega))

section

variable {rule : Rule σ ε} {t : Tree} {s : σ} {p : NodeId} {front rest held : List Outline}
  {above : List NodeId} {top : Option NodeId}

/-- A walk by a rule that goes through a part and changes nothing. -/
def Idle (rule : Rule σ ε) (t : Tree) (s : σ) (id : NodeId) : Prop :=
  Answers (fun fuel => walk rule fuel id t s) (some id, t, s)

theorem members_idle (hm : t.Site (.node p (front ++ rest)) above top)
    (hl : (t.element p).isList = true) (hidle : ∀ c ∈ rest, Idle rule t s c.id) :
    Answers (fun fuel => walkMembers rule fuel p front.length t s) (t, s) := by
  induction rest generalizing front with
  | nil =>
    refine ⟨1, fun fuel hf => ?_⟩
    obtain ⟨fuel, rfl⟩ : ∃ m, fuel = m + 1 := ⟨fuel - 1, by omega⟩
    have hend : (t.element p).children.length ≤ front.length := by
      rw [hm.stands.spans.children]
      simp
    dsimp only
    rw [walkMembers_succ, members_eq hl, List.getElem?_eq_none hend]
  | cons c rest ih =>
    have hmid := hm.midway_at
    have hself : t.listSet p front.length c.id = t := by
      rw [Tree.listSet_eq_refit hl]
      exact Tree.refit_self hmid.child (hmid.ahead c (by simp)).2
    rw [List.append_cons] at hm
    have hrest := ih hm fun d hd => hidle d (List.mem_cons_of_mem c hd)
    rw [List.length_append, List.length_singleton] at hrest
    refine (hidle c (by simp)).both hrest fun fuel hc hnext => ?_
    rw [walkMembers_succ, members_eq hl, hmid.child]
    simp only [hc, Except.bind, hself, hnext]

theorem places_idle {params : Option String} {rows : List (Row NodeId)}
    (hm : t.Site (.node p (front ++ rest)) above top) (ht : OnTable t p front rest params rows)
    (hidle : ∀ c ∈ rest, Idle rule t s c.id) :
    Answers (fun fuel => walkPlaces rule fuel p ((places rows).drop front.length) t s)
      (t, s) := by
  induction rest generalizing front with
  | nil =>
    have hids := ht.places_ids
    rw [List.map_nil, List.map_eq_nil_iff] at hids
    refine ⟨1, fun fuel hf => ?_⟩
    obtain ⟨fuel, rfl⟩ : ∃ m, fuel = m + 1 := ⟨fuel - 1, by omega⟩
    dsimp only
    rw [hids, walkPlaces]
  | cons c rest ih =>
    have hmid := hm.midway_at
    have hids := ht.places_ids
    rcases hpl : (places rows).drop front.length with _ | ⟨place, more⟩
    · simp [hpl] at hids
    · rw [hpl, List.map_cons, List.map_cons, List.cons.injEq] at hids
      obtain ⟨hset, ht', hmore⟩ := ht.fill rfl hmid.inside hpl c
      rw [Tree.refit_self hmid.child (hmid.ahead c (by simp)).2] at hset ht'
      rw [List.append_cons] at hm
      have hrest := ih hm ht' fun d hd => hidle d (List.mem_cons_of_mem c hd)
      rw [hmore] at hrest
      refine (hidle c (by simp)).both hrest fun fuel hc hnext => ?_
      rw [walkPlaces_cons, hids.1, hc]
      simp only [Except.bind, orEmpty, hset, hnext]

/-- Where nothing that is held changes, the holder does not change either. -/
theorem descend_idle (hm : t.Site (.node p held) above top)
    (hidle : ∀ c ∈ held, Idle rule t s c.id) :
    Answers (fun fuel => descend rule fuel p t s) (t, s) := by
  have hchildren : (t.element p).children = held.map Outline.id := hm.stands.spans.children
  have hstart : t.Site (.node p ([] ++ held)) above top := hm
  unfold descend
  cases he : t.element p with
  | list members => exact members_idle hstart (by rw [he]; rfl) hidle
  | wrap w child =>
    rw [he] at hchildren
    cases child with
    | none => exact ⟨0, fun _ _ => rfl⟩
    | some child =>
      obtain ⟨o, rfl, rfl⟩ : ∃ o, held = [o] ∧ o.id = child := by
        simpa [Element.children, List.map_eq_singleton_iff, eq_comm] using hchildren
      have hself : t.setChild p (some o.id) = t := by
        rw [Tree.setChild_eq_refit he]
        exact Tree.refit_self hm.midway.child (hm.midway.ahead o (by simp)).2
      refine (hidle o (by simp)).map fun fuel hf => ?_
      simp only [hf, bind, Except.bind, orEmpty, hself]
      rfl
  | table params rows => exact places_idle hstart (.start he hchildren) hidle
  | leaf l => exact ⟨0, fun _ _ => rfl⟩

/-- After its calls, the rule that keeps all nodes changes nothing. -/
theorem walk_idle {n : Nat} {s : σ × Nat} {o : Outline} (hm : t.Site o above top) (hn : n ≤ s.2) :
    Idle (rule.pausing n) t s o.id := by
  induction o using Outline.induct generalizing above with
  | node id held ih =>
    have hheld := descend_idle hm fun c hc => ih c hc (hm.held hc)
    refine hheld.succ fun fuel hf => ?_
    rw [walk_succ, Outline.id_node, offer_pausing hn]
    simp only [Except.bind, hf]
    rfl

end

end WikiHtml.Substitution
