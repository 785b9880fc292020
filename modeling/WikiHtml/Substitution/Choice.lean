-- Substitution by a list of choices: each names the nodes that it is for, what is done with them,
-- and how often it may be used.
import WikiHtml.Substitution.Walk

namespace WikiHtml.Substitution

/-- What is done with a node: it is kept, deleted, replaced by the node that it holds or by a copy
of a document, or put into a bold element. -/
inductive Action where
  | keep
  | delete
  | unwrap
  | replace (document : Document)
  | embolden

/-- An action for the nodes of a kind, or of all kinds, and with the given text below them if one
is given; `uses` are left. -/
structure Choice where
  kind : Option String
  text : Option String
  action : Action
  uses : Nat

/-- Whether a choice is for a node. -/
def Choice.fits (c : Choice) (t : Tree) (id : NodeId) : Bool :=
  (match c.kind with
    | some kind => kind == (t.element id).kindName
    | none => true) &&
  (match c.text with
    | some text => text == t.stringContent id
    | none => true)

/-- The first choice for a node with uses left, and the choices after one use of it. -/
def take (t : Tree) (id : NodeId) : List Choice → Option (Action × List Choice)
  | [] => none
  | c :: rest =>
    if 0 < c.uses && c.fits t id then some (c.action, { c with uses := c.uses - 1 } :: rest)
    else (take t id rest).map fun (action, rest) => (action, c :: rest)

/-- Does with a node what an action says. -/
def Action.run (t : Tree) (id : NodeId) : Action → Option NodeId × Tree
  | .keep => (some id, t)
  | .delete => (none, t)
  | .unwrap => (t.child? id, t)
  | .replace document =>
    let (new, t) := t.addDocument document
    (some new, t)
  | .embolden =>
    let (new, t) := t.add (.wrap .bold (some id)) none
    (some new, t)

/-- The choices that are left, and the kinds of the nodes offered so far, last one first. -/
structure Choosing where
  choices : List Choice
  seen : List String

/-- Does with a node what the first choice for it says, and keeps it if there is none. -/
def choose : Rule Choosing Empty := fun id t s =>
  let seen := (t.element id).kindName :: s.seen
  match take t id s.choices with
  | none => .ok (some id, t, ⟨s.choices, seen⟩)
  | some (action, choices) =>
    let (new, t) := action.run t id
    .ok (new, t, ⟨choices, seen⟩)

/-- How many nodes an action adds. -/
def Action.growth : Action → Nat
  | .replace document => (Tree.ofDocument document).size
  | .embolden => 1
  | _ => 0

/-- Fuel for a substitution by choices: enough to pass each node that there can be, as one level
of nesting and as one member of a list. -/
def fuelFor (choices : List Choice) (t : Tree) : Nat :=
  let added := choices.foldr (fun c nodes => c.uses * c.action.growth + nodes) 0
  4 * (t.size + added + 1)

end WikiHtml.Substitution
