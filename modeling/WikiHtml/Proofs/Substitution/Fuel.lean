-- One step of a walk, and what walks have in common whose fuel or whose rules differ: more fuel does
-- not change an answer, so running with more and more of it gives the answer that there is.
import WikiHtml.Substitution.Walk

namespace WikiHtml.Substitution

variable {σ ε : Type}

/-! ## One step of a walk -/

/-- Goes through what a node holds. -/
def descend (rule : Rule σ ε) (fuel : Nat) (id : NodeId) (t : Tree) (s : σ) :
    Except (Stop ε) (Tree × σ) :=
  match t.element id with
  | .list _ => walkMembers rule fuel id 0 t s
  | .wrap _ (some child) => do
    let (new, t, s) ← walk rule fuel child t s
    let (new, t) := orEmpty t new
    return (t.setChild id (some new), s)
  | .table _ rows => walkPlaces rule fuel id (places rows) t s
  | _ => .ok (t, s)

theorem walk_succ (rule : Rule σ ε) (fuel : Nat) (id : NodeId) (t : Tree) (s : σ) :
    walk rule (fuel + 1) id t s =
      (offer rule id t s).bind fun answer =>
        match answer with
        | (none, t, s) => .ok (none, t, s)
        | (some id, t, s) => (descend rule fuel id t s).map fun (t, s) => (some id, t, s) := by
  rw [walk]
  rcases offer rule id t s with _ | ⟨_ | new, t', s'⟩
  · rfl
  · rfl
  · simp only [bind, Except.bind, pure, Except.pure, descend]
    rcases t'.element new with members | ⟨w, _ | child⟩ | ⟨params, rows⟩ | l <;> dsimp only
    · rcases walkMembers rule fuel new 0 t' s' with _ | ⟨t'', s''⟩ <;> rfl
    · rfl
    · rcases walk rule fuel child t' s' with _ | ⟨r, t'', s''⟩ <;> rfl
    · rcases walkPlaces rule fuel new (places rows) t' s' with _ | ⟨t'', s''⟩ <;> rfl
    · rfl

theorem walkMembers_succ (rule : Rule σ ε) (fuel : Nat) (list : NodeId) (k : Nat) (t : Tree)
    (s : σ) :
    walkMembers rule (fuel + 1) list k t s =
      match (t.members list)[k]? with
      | none => .ok (t, s)
      | some member => (walk rule fuel member t s).bind fun answer =>
        match answer with
        | (some new, t, s) => walkMembers rule fuel list (k + 1) (t.listSet list k new) s
        | (none, t, s) => walkMembers rule fuel list k (t.listRemove list k).2 s := by
  rw [walkMembers]
  rcases (t.members list)[k]? with _ | member
  · rfl
  · rfl

theorem walkPlaces_cons (rule : Rule σ ε) (fuel : Nat) (table : NodeId) (place : Place)
    (rest : List Place) (t : Tree) (s : σ) :
    walkPlaces rule (fuel + 1) table (place :: rest) t s =
      (walk rule fuel place.2.2 t s).bind fun answer =>
        walkPlaces rule fuel table rest
          ((orEmpty answer.2.1 answer.1).2.setCellContent table place.1 place.2.1
            (some (orEmpty answer.2.1 answer.1).1)) answer.2.2 := by
  rw [walkPlaces]
  rfl

/-! ## More fuel, and other rules -/

/-- The same answer, unless the first one stopped for such a cause. -/
def Unless (cause : Stop ε → Prop) {α : Type} (a b : Except (Stop ε) α) : Prop :=
  (∃ stop, cause stop ∧ a = .error stop) ∨ a = b

variable {cause : Stop ε → Prop}

theorem Unless.bind {α β : Type} {a b : Except (Stop ε) α} {f g : α → Except (Stop ε) β}
    (h : Unless cause a b) (hf : ∀ x, Unless cause (f x) (g x)) :
    Unless cause (a.bind f) (b.bind g) := by
  rcases h with ⟨stop, hc, rfl⟩ | rfl
  · exact Or.inl ⟨stop, hc, rfl⟩
  · rcases a with stop | x
    · exact Or.inr rfl
    · exact hf x

theorem Unless.map {α β : Type} {a b : Except (Stop ε) α} (f : α → β) (h : Unless cause a b) :
    Unless cause (a.map f) (b.map f) := by
  rcases h with ⟨stop, hc, rfl⟩ | rfl
  · exact Or.inl ⟨stop, hc, rfl⟩
  · exact Or.inr rfl

/-- The rules answer the same, unless the first one stops for such a cause. -/
def RulesUnless (cause : Stop ε → Prop) (rule rule' : Rule σ ε) : Prop :=
  ∀ id t s, Unless cause (offer rule id t s) (offer rule' id t s)

/-- Walks by rules that answer the same answer the same. If the fuel is not the same either, the
first one may also stop because its fuel did not last. -/
theorem walk_unless {rule rule' : Rule σ ε} (hrule : RulesUnless cause rule rule') (extra : Nat)
    (hextra : cause .outOfFuel ∨ extra = 0) (fuel : Nat) :
    (∀ id t s, Unless cause (walk rule fuel id t s) (walk rule' (extra + fuel) id t s)) ∧
    (∀ list k t s, Unless cause (walkMembers rule fuel list k t s)
      (walkMembers rule' (extra + fuel) list k t s)) ∧
    (∀ table rest t s, Unless cause (walkPlaces rule fuel table rest t s)
      (walkPlaces rule' (extra + fuel) table rest t s)) := by
  induction fuel with
  | zero =>
    rcases hextra with hc | rfl
    · refine ⟨fun id t s => Or.inl ⟨_, hc, ?_⟩, fun list k t s => Or.inl ⟨_, hc, ?_⟩,
        fun table rest t s => Or.inl ⟨_, hc, ?_⟩⟩
      · rw [walk]
      · rw [walkMembers]
      · rw [walkPlaces]
    · refine ⟨fun id t s => Or.inr ?_, fun list k t s => Or.inr ?_, fun table rest t s => Or.inr ?_⟩
      · rw [walk, walk]
      · rw [walkMembers, walkMembers]
      · rw [walkPlaces, walkPlaces]
  | succ fuel ih =>
    obtain ⟨hwalk, hmembers, hplaces⟩ := ih
    have hdescend : ∀ id t s,
        Unless cause (descend rule fuel id t s) (descend rule' (extra + fuel) id t s) := by
      intro id t s
      unfold descend
      rcases t.element id with members | ⟨w, _ | child⟩ | ⟨params, rows⟩ | l
      · exact hmembers id 0 t s
      · exact Or.inr rfl
      · exact (hwalk child t s).bind fun _ => Or.inr rfl
      · exact hplaces id (places rows) t s
      · exact Or.inr rfl
    rw [← Nat.add_assoc]
    refine ⟨fun id t s => ?_, fun list k t s => ?_, fun table rest t s => ?_⟩
    · rw [walk_succ, walk_succ]
      refine Unless.bind (hrule id t s) fun answer => ?_
      rcases answer with ⟨_ | new, t', s'⟩
      · exact Or.inr rfl
      · exact (hdescend new t' s').map _
    · rw [walkMembers_succ, walkMembers_succ]
      rcases (t.members list)[k]? with _ | member
      · exact Or.inr rfl
      · refine (hwalk member t s).bind fun answer => ?_
        rcases answer with ⟨_ | new, t', s'⟩
        · exact hmembers list k _ s'
        · exact hmembers list (k + 1) _ s'
    · rcases rest with _ | ⟨place, rest⟩
      · exact Or.inr (by rw [walkPlaces, walkPlaces])
      · rw [walkPlaces_cons, walkPlaces_cons]
        exact (hwalk place.2.2 t s).bind fun answer => hplaces table rest _ answer.2.2

theorem page_unless {rule rule' : Rule σ ε} (hrule : RulesUnless cause rule rule') (extra : Nat)
    (hextra : cause .outOfFuel ∨ extra = 0) (fuel : Nat) (t : Tree) (s : σ) :
    Unless cause (page rule fuel t s) (page rule' (extra + fuel) t s) := by
  unfold page
  rcases t.root with _ | root
  · exact Or.inr rfl
  · exact ((walk_unless hrule extra hextra fuel).1 root t s).bind fun _ => Or.inr rfl

/-- The same answer, unless there is none because the fuel did not last. -/
abbrev Lasts {α : Type} (a b : Except (Stop ε) α) : Prop :=
  Unless (· = .outOfFuel) a b

theorem Lasts.ok {α : Type} {a b : Except (Stop ε) α} (h : Lasts a b) {x : α} (ha : a = .ok x) :
    b = .ok x := by
  rcases h with ⟨stop, _, he⟩ | he
  · rw [ha] at he
    cases he
  · rw [← he, ha]

theorem RulesUnless.refl (rule : Rule σ ε) : RulesUnless (· = .outOfFuel) rule rule :=
  fun _ _ _ => Or.inr rfl

theorem walk_ok_succ {rule : Rule σ ε} {fuel : Nat} {id : NodeId} {t : Tree} {s : σ}
    {answer : Answer σ} (h : walk rule fuel id t s = .ok answer) :
    walk rule (fuel + 1) id t s = .ok answer := by
  have hlasts := (walk_unless (RulesUnless.refl rule) 1 (Or.inl rfl) fuel).1 id t s
  rw [Nat.add_comm]
  exact Lasts.ok hlasts h

/-- More fuel changes no answer of a walk over a whole tree. -/
theorem page_lasts (rule : Rule σ ε) {fuel more : Nat} (h : fuel ≤ more) (t : Tree) (s : σ) :
    Lasts (page rule fuel t s) (page rule more t s) := by
  obtain ⟨extra, rfl⟩ := Nat.exists_eq_add_of_le' h
  exact page_unless (RulesUnless.refl rule) extra (Or.inl rfl) fuel t s

/-! ## Running until it is done -/

section

variable {α : Type} {run : Nat → Except (Stop ε) α} {fuel : Nat}

theorem untilDone_again (h : run fuel = .error .outOfFuel) :
    untilDone run fuel = untilDone run (2 * fuel) := by
  have hattempt : attempt run fuel = .inl (2 * fuel) := by
    unfold attempt
    split
    · rfl
    · contradiction
  rw [untilDone, repeatM_eq_of_monadTail, repeatM.body, hattempt]
  rfl

theorem untilDone_done (h : run fuel ≠ .error .outOfFuel) :
    untilDone run fuel = some (run fuel) := by
  have hattempt : attempt run fuel = .inr (some ⟨run fuel, fuel, rfl⟩) := by
    unfold attempt
    split
    · contradiction
    · rfl
  rw [untilDone, repeatM_eq_of_monadTail, repeatM.body, hattempt]
  rfl

/-- An answer that comes with some fuel comes at last. -/
theorem untilDone_of_lasts (hl : ∀ m n, m ≤ n → Lasts (run m) (run n)) {n : Nat}
    (h : run n ≠ .error .outOfFuel) (hf : 0 < fuel) : untilDone run fuel = some (run n) := by
  induction hk : n - fuel using Nat.strongRecOn generalizing fuel with
  | ind k ih =>
    rcases Nat.le_total n fuel with hle | hle
    · rcases hl n fuel hle with ⟨stop, rfl, he⟩ | he
      · exact absurd he h
      · rw [he, untilDone_done (he ▸ h)]
    · rcases hl fuel n hle with ⟨stop, rfl, he⟩ | he
      · have hne : fuel ≠ n := by
          rintro rfl
          exact h he
        rw [untilDone_again he]
        exact ih (n - 2 * fuel) (by omega) (by omega) rfl
      · rw [← he, untilDone_done (he ▸ h)]

/-- What comes at last comes with some fuel. -/
theorem ok_of_untilDone {answer : Except (Stop ε) α} (h : untilDone run fuel = some answer) :
    ∃ n, run n = answer := by
  obtain ⟨found, _, rfl⟩ := Option.map_eq_some_iff.mp h
  exact found.2

end

/-! ## Enough fuel -/

/-- From some fuel on there is always this answer. -/
def Answers {α : Type} (run : Nat → Except (Stop ε) α) (answer : α) : Prop :=
  ∃ fuel, ∀ n, fuel ≤ n → run n = .ok answer

namespace Answers

variable {α β : Type} {run : Nat → Except (Stop ε) α} {run' : Nat → Except (Stop ε) β} {a a' : α}
  {b : β}

theorem unique (h : Answers run a) (h' : Answers run a') : a = a' := by
  obtain ⟨fuel, h⟩ := h
  obtain ⟨fuel', h'⟩ := h'
  have he : Except.ok a = Except.ok a' :=
    (h (max fuel fuel') (by omega)).symm.trans (h' _ (by omega))
  exact Except.ok.inj he

theorem map (h : Answers run a) (hstep : ∀ n, run n = .ok a → run' n = .ok b) :
    Answers run' b := by
  obtain ⟨fuel, h⟩ := h
  exact ⟨fuel, fun n hn => hstep n (h n hn)⟩

theorem bind {next : Nat → α → Except (Stop ε) β} (h : Answers run a)
    (h' : Answers (fun n => next n a) b) : Answers (fun n => run n >>= next n) b := by
  obtain ⟨fuel, h⟩ := h
  obtain ⟨fuel', h'⟩ := h'
  refine ⟨max fuel fuel', fun n hn => ?_⟩
  show run n >>= next n = _
  rw [h n (by omega)]
  exact h' n (by omega)

theorem succ (h : Answers run a) (hstep : ∀ n, run n = .ok a → run' (n + 1) = .ok b) :
    Answers run' b := by
  obtain ⟨fuel, h⟩ := h
  refine ⟨fuel + 1, fun n hn => ?_⟩
  obtain ⟨n, rfl⟩ : ∃ m, n = m + 1 := ⟨n - 1, by omega⟩
  exact hstep n (h n (by omega))

end Answers

end WikiHtml.Substitution
