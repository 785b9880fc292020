-- Going through a tree from the top. Each node is offered to a rule, which keeps it, puts another
-- node in its place or deletes it, before the nodes below the one that stays are offered. Lists are
-- never offered, only their members.
import WikiHtml.Tree.Query

namespace WikiHtml.Substitution

/-- Why a walk has no result: the rule failed, or the fuel did not last. -/
inductive Stop (ε : Type) where
  | fault (cause : ε)
  | outOfFuel
  deriving DecidableEq, Repr

/-- What a rule answers: the node that stands in the place of the offered one, or none if that is
deleted, and the tree and the state of the rule after it. -/
abbrev Answer (σ : Type) := Option NodeId × Tree × σ

/-- What is done with an offered node. -/
abbrev Rule (σ ε : Type) := NodeId → Tree → σ → Except ε (Answer σ)

variable {σ ε : Type}

/-- Offers a node to the rule, unless it is a list. A node that takes its place takes its parent. -/
def offer (rule : Rule σ ε) (id : NodeId) (t : Tree) (s : σ) : Except (Stop ε) (Answer σ) :=
  if (t.element id).isList then .ok (some id, t, s)
  else
    match rule id t s with
    | .error cause => .error (.fault cause)
    | .ok (none, t', s) => .ok (none, t', s)
    | .ok (some new, t', s) =>
      .ok (some new, if new = id then t' else t'.setParent new (t.parent id), s)

/-- The node, or an empty list in the place of a deleted one that was no member of a list. -/
def orEmpty (t : Tree) : Option NodeId → NodeId × Tree
  | some id => (id, t)
  | none => t.addEmpty

/-- A place in a table, row and column, with the node that is there. -/
abbrev Place := Nat × Nat × NodeId

/-- The cells of a row that have content. -/
def placesOfRow (row : Nat) (cells : List (Cell NodeId)) : List Place :=
  cells.zipIdx.filterMap fun (cell, column) => cell.content.map fun id => (row, column, id)

/-- The cells of a table that have content, row by row. -/
def places (rows : List (Row NodeId)) : List Place :=
  rows.zipIdx.flatMap fun (row, index) => placesOfRow index row.cells

mutual

/-- Goes through a node and what is below it, the node first. Each level of nesting and each member
of a list uses up fuel. -/
def walk (rule : Rule σ ε) : Nat → NodeId → Tree → σ → Except (Stop ε) (Answer σ)
  | 0, _, _, _ => .error .outOfFuel
  | fuel + 1, id, t, s => do
    match ← offer rule id t s with
    | (none, t, s) => return (none, t, s)
    | (some id, t, s) =>
      match t.element id with
      | .list _ =>
        let (t, s) ← walkMembers rule fuel id 0 t s
        return (some id, t, s)
      | .wrap _ (some child) =>
        let (new, t, s) ← walk rule fuel child t s
        let (new, t) := orEmpty t new
        return (some id, t.setChild id (some new), s)
      | .table _ rows =>
        let (t, s) ← walkPlaces rule fuel id (places rows) t s
        return (some id, t, s)
      | _ => return (some id, t, s)
termination_by structural fuel => fuel

/-- Goes through the members of a list from an index on. A deleted member leaves the list. -/
def walkMembers (rule : Rule σ ε) : Nat → NodeId → Nat → Tree → σ → Except (Stop ε) (Tree × σ)
  | 0, _, _, _, _ => .error .outOfFuel
  | fuel + 1, list, index, t, s =>
    match (t.members list)[index]? with
    | none => .ok (t, s)
    | some member => do
      match ← walk rule fuel member t s with
      | (some new, t, s) => walkMembers rule fuel list (index + 1) (t.listSet list index new) s
      | (none, t, s) => walkMembers rule fuel list index (t.listRemove list index).2 s
termination_by structural fuel => fuel

/-- Goes through the contents of the cells of a table. -/
def walkPlaces (rule : Rule σ ε) : Nat → NodeId → List Place → Tree → σ →
    Except (Stop ε) (Tree × σ)
  | 0, _, _, _, _ => .error .outOfFuel
  | _ + 1, _, [], t, s => .ok (t, s)
  | fuel + 1, table, (row, column, content) :: rest, t, s => do
    let (new, t, s) ← walk rule fuel content t s
    let (new, t) := orEmpty t new
    walkPlaces rule fuel table rest (t.setCellContent table row column (some new)) s
termination_by structural fuel => fuel

end

/-- The node as a page: itself if it is one, else a new page around it. -/
def asPage (t : Tree) (path : Option String) (span : Option Span) (id : NodeId) : NodeId × Tree :=
  if (t.element id).isPage then (id, t) else t.add (.wrap (.page path) (some id)) span

/-- Goes through a whole tree. At the top of the result is a page, if need be a new one with the
path and the span of the old top. -/
def page (rule : Rule σ ε) (fuel : Nat) (t : Tree) (s : σ) : Except (Stop ε) (Tree × σ) :=
  match t.root with
  | none => .ok (t, s)
  | some root => do
    let (new, t', s) ← walk rule fuel root t s
    let (new, t') := orEmpty t' new
    let (new, t') := asPage t' (t.pagePath root) (t.span root) new
    return (t'.setRoot new, s)

/-! ## Running until it is done -/

/-- The answers that a run can give. -/
abbrev AnswerOf {α : Type} (run : Nat → Except (Stop ε) α) :=
  { answer : Except (Stop ε) α // ∃ fuel, run fuel = answer }

/-- The answer of a run if the fuel lasts, or else twice the fuel to go on with. -/
def attempt {α : Type} (run : Nat → Except (Stop ε) α) (fuel : Nat) :
    Id (Nat ⊕ Option (AnswerOf run)) :=
  match h : run fuel with
  | .error .outOfFuel => .inl (2 * fuel)
  | answer => .inr (some ⟨answer, fuel, h⟩)

/-- Runs with more and more fuel, until that lasts. -/
def untilDone {α : Type} (run : Nat → Except (Stop ε) α) (fuel : Nat) :
    Option (Except (Stop ε) α) :=
  (repeatM (attempt run) fuel).run.map Subtype.val

end WikiHtml.Substitution
