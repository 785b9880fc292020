-- The passes as they work in the table of nodes: what takes the place of a node is built there, behind
-- all nodes that are in the table.
import WikiHtml.Building.Card
import WikiHtml.Building.Contents
import WikiHtml.Building.EventTable
import WikiHtml.Building.PageLinks
import WikiHtml.Substitution.Pass

namespace WikiHtml.Substitution

/-- What is done with a node: it stays, it is deleted, or what is built takes its place. -/
inductive Edit where
  | keep
  | delete
  | build (b : Building NodeId)

/-- What is built takes the place of the node, or the node is deleted if there is nothing to build. -/
def Edit.ofOption : Option (Building NodeId) → Edit
  | some b => .build b
  | none => .delete

/-- What is done with each node of a tree. -/
abbrev Rewriting := Tree → NodeId → Except Event.Fault Edit

namespace Rewriting

/-- A rewriting as a rule, without a state of its own. -/
def rule (rewriting : Rewriting) : Rule Unit Event.Fault := fun id t _ => do
  match ← rewriting t id with
  | .keep => return (some id, t, ())
  | .delete => return (none, t, ())
  | .build b =>
    let (new, t) := (b.run t).run
    return (some new, t, ())

/-- Runs a rewriting over a tree. -/
def apply (rewriting : Rewriting) (r : Repository) (t : Tree) : Except (Stop Event.Fault) Tree :=
  applyRule rewriting.rule r t

/-! ## Inclusion -/

/-- A copy of a stored page. -/
def stored? (r : Repository) (path : String) : Option (Building NodeId) := do
  let page := Tree.ofDocument (← r.get? path)
  return .copyFrom page (← page.root)

/-- Puts copies of stored pages into the places that ask for them. A page is not put into itself. -/
def inclusion (r : Repository) : Rewriting := fun t id =>
  match t.element id with
  | .leaf (.includePage path) =>
    match t.absolutePath (some path) (t.contextPage id false) with
    | none => .ok .delete
    | some absolute =>
      if isInside t absolute id then .ok .delete else .ok (.ofOption (stored? r absolute))
  | _ => .ok .keep

/-! ## Contacts and events -/

/-- Builds a card for each contact. -/
def contacts (today : Calendar.Date) : Rewriting := fun t id =>
  match t.element id with
  | .wrap (.xmlTag none name _) child =>
    if name = Contact.tagName then
      .ok (.build (Building.card today (Building.personAt t today child)))
    else .ok .keep
  | _ => .ok .keep

/-- Builds a table for each list of events. A tag with options that make no sense stays. -/
def events (r : Repository) (settings : Settings) (today : Calendar.Date) : Rewriting :=
  fun t id =>
    match t.element id with
    | .wrap (.xmlTag none name options) _ =>
      if isEventTag name then
        match Event.Range.ofOptions? options with
        | none => .ok .keep
        | some range => do
          match ← Event.entries today r range with
          | some entries => return .build (Building.eventTable settings entries)
          | none => return .keep
      else .ok .keep
    | _ => .ok .keep

/-! ## Placeholders -/

/-- Builds the table of contents of the page of a node. -/
def contents (t : Tree) (id : NodeId) : Building NodeId :=
  match t.contextPage id false with
  | some page => Building.tableOfContents t page
  | none => Building.group []

/-- Builds the name of the page of a node. -/
def name? (t : Tree) (id : NodeId) (format : NameFormat) (linked global : Bool) :
    Option (Building NodeId) := do
  let path ← t.pagePath (← t.contextPage id global)
  return Building.pageName path format linked

/-- Builds a list of pages, if there are paths for it. -/
def list? (paths : Option (List String)) (listing : Listing) : Option (Building NodeId) := do
  Building.pageList (← paths) listing

/-- Fills in what a page says by placeholders. -/
def placeholders (r : Repository) (settings : Settings) (now : Calendar.Moment) : Rewriting :=
  fun t id =>
    match t.element id with
    | .leaf .tableOfContents => .ok (.build (contents t id))
    | .leaf (.pageName format linked global) => .ok (.ofOption (name? t id format linked global))
    | .leaf .wikiVersion => .ok (.build (Building.text settings.programNameVersion))
    | .leaf (.parent _) => .ok .delete
    | .leaf (.listPages folder listing) =>
      .ok (.ofOption (list? (folderPaths? r t id folder listing) listing))
    | .leaf (.moment format) => .ok (.build (Building.text (momentText settings now format)))
    | .leaf (.listParents path listing) =>
      .ok (.ofOption (list? (relativePaths? r t id path listing r.parents) listing))
    | .leaf (.listChildren path listing) =>
      .ok (.ofOption (list? (relativePaths? r t id path listing r.children) listing))
    | .leaf (.listWantedPages listing) =>
      .ok (.ofOption (list? (some (PageOrder.shown (Placeholder.wantedPages r))) listing))
    | .leaf (.listUnlinkedPages hideParents hideChildren listing) =>
      let paths := Placeholder.unlinkedPages r settings hideParents hideChildren
      .ok (.ofOption (list? (some (PageOrder.shown paths)) listing))
    | _ => .ok .keep

end Rewriting

/-! ## Running passes by their names -/

/-- The names of the passes. -/
inductive PassName where
  | inclusion
  | contacts
  | events
  | placeholders
  deriving DecidableEq, Repr

namespace PassName

/-- The names of the passes over a page that is to be shown, in their order. -/
def all : List PassName :=
  [.inclusion, .contacts, .events, .placeholders]

/-- What the pass of a name makes of nodes. -/
def pass (r : Repository) (settings : Settings) (now : Calendar.Moment) : PassName → Pass
  | .inclusion => Substitution.inclusion r
  | .contacts => Substitution.contacts now.date
  | .events => Substitution.events r settings now.date
  | .placeholders => Substitution.placeholders r settings now

/-- What the pass of a name does in a tree. -/
def rewriting (r : Repository) (settings : Settings) (now : Calendar.Moment) :
    PassName → Rewriting
  | .inclusion => Rewriting.inclusion r
  | .contacts => Rewriting.contacts now.date
  | .events => Rewriting.events r settings now.date
  | .placeholders => Rewriting.placeholders r settings now

end PassName

/-- Runs the passes of some names in a tree, one after another. -/
def rewriteAll (names : List PassName) (r : Repository) (settings : Settings)
    (now : Calendar.Moment) (t : Tree) : Except (Stop Event.Fault) Tree :=
  names.foldlM (fun t name => (name.rewriting r settings now).apply r t) t

end WikiHtml.Substitution
