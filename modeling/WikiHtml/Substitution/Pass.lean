-- The passes over a page that give its tags their meaning: pages are included, contacts become
-- cards and event lists tables, and placeholders are filled in. Here a pass says by a document what
-- takes the place of a node; `Rewriting` has the same passes as they build nodes in the table, which
-- is what the program runs, and both show the same page.
import WikiHtml.Calendar.Pattern
import WikiHtml.Contact.Card
import WikiHtml.Event.Table
import WikiHtml.Placeholder.Contents
import WikiHtml.Placeholder.PageLinks
import WikiHtml.Substitution.Walk

namespace WikiHtml.Substitution

/-- What a pass makes of a node: it stays, it is deleted, or a document takes its place. -/
inductive Verdict where
  | keep
  | delete
  | put (document : Document)

/-- The document takes the place of the node, or the node is deleted if there is none. -/
def Verdict.ofOption : Option Document → Verdict
  | some document => .put document
  | none => .delete

/-- What a pass makes of each node of a tree. -/
abbrev Pass := Tree → NodeId → Except Event.Fault Verdict

/-- A pass as a rule, without a state of its own. -/
def Pass.rule (pass : Pass) : Rule Unit Event.Fault := fun id t _ => do
  match ← pass t id with
  | .keep => return (some id, t, ())
  | .delete => return (none, t, ())
  | .put document =>
    let (new, t) := t.addDocument document
    return (some new, t, ())

/-! ## Inclusion -/

/-- Whether a page with the path is around a node, looked for in so many pages on the way up. -/
def isInsideWithin (t : Tree) (path : String) : Nat → NodeId → Bool
  | 0, _ => false
  | pages + 1, id =>
    match t.contextPage id false with
    | none => false
    | some page =>
      t.pagePath page == some path ||
        (match t.parent page with
        | some above => isInsideWithin t path pages above
        | none => false)

/-- Whether a page with the path is around a node. -/
def isInside (t : Tree) (path : String) (id : NodeId) : Bool :=
  isInsideWithin t path t.size id

/-- Puts stored pages into the places that ask for them. A page is not put into itself. -/
def inclusion (r : Repository) : Pass := fun t id =>
  match t.element id with
  | .leaf (.includePage path) =>
    match t.absolutePath (some path) (t.contextPage id false) with
    | none => .ok .delete
    | some absolute =>
      if isInside t absolute id then .ok .delete else .ok (.ofOption (r.get? absolute))
  | _ => .ok .keep

/-! ## Contacts and events -/

/-- Shows contacts as cards. -/
def contacts (today : Calendar.Date) : Pass := fun t id =>
  match t.element id with
  | .wrap (.xmlTag none name _) child =>
    if name = Contact.tagName then
      let person := Contact.person today (child.bind t.document?)
      .ok (.put (Contact.card today person))
    else .ok .keep
  | _ => .ok .keep

/-- Whether a tag stands for a list of events; the case of ASCII letters does not count. -/
def isEventTag (name : String) : Bool :=
  name.toList.map Char.toLower == "terminliste".toList

/-- Shows lists of events as tables. A tag with options that make no sense stays. -/
def events (r : Repository) (settings : Settings) (today : Calendar.Date) : Pass := fun t id =>
  match t.element id with
  | .wrap (.xmlTag none name options) _ =>
    if isEventTag name then
      match Event.Range.ofOptions? options with
      | none => .ok .keep
      | some range => do
        match ← Event.entries today r range with
        | some entries => return .put (Event.table settings entries)
        | none => return .keep
    else .ok .keep
  | _ => .ok .keep

/-! ## Placeholders -/

/-- The key of the pattern for a moment, and the pattern that is used without it. -/
def momentPattern : MomentFormat → String × String
  | .date => ("WikiTagsTransformer.dateformat.date", "[day].[month].[year]")
  | .time => ("WikiTagsTransformer.dateformat.time", "[hour]:[minute]")
  | .dateTime =>
    ("WikiTagsTransformer.dateformat.datetime", "[day].[month].[year] [hour]:[minute]")

/-- The current moment as text, by the pattern of the messages if that can be used. -/
def momentText (settings : Settings) (now : Calendar.Moment) (format : MomentFormat) : String :=
  let (key, standard) := momentPattern format
  match (settings.messages.lookup key).bind now.format? with
  | some text => text
  | none => (now.format? standard).getD ""

/-- The table of contents of the page of a node. -/
def contentsOf (t : Tree) (id : NodeId) : Document :=
  match (t.contextPage id false).bind t.document? with
  | some page => Placeholder.tableOfContents page
  | none => .group []

/-- The name of the page of a node. -/
def nameOf? (t : Tree) (id : NodeId) (format : NameFormat) (linked global : Bool) :
    Option Document := do
  let path ← t.pagePath (← t.contextPage id global)
  return Placeholder.pageName path format linked

/-- The paths of the pages of a folder, which is that of the page of a node if none is named. -/
def folderPaths? (r : Repository) (t : Tree) (id : NodeId) (folder : Option String)
    (listing : Listing) : Option (List String) := do
  let page ← t.contextPage id listing.global
  let named := folder.or ((t.pagePath page).map PagePath.folder)
  let paths := Placeholder.pagesBelow r (t.absolutePath named (some page))
  return PageOrder.shown paths

/-- The pages of a folder. -/
def folderPages? (r : Repository) (t : Tree) (id : NodeId) (folder : Option String)
    (listing : Listing) : Option Document := do
  Placeholder.pageList (← folderPaths? r t id folder listing) listing

/-- The paths of the relatives of a page, which is that of a node if none is named. The page has to be
stored. -/
def relativePaths? (r : Repository) (t : Tree) (id : NodeId) (path : Option String)
    (listing : Listing) (relatives : String → List String) : Option (List String) := do
  let page ← t.absolutePath path (t.contextPage id listing.global)
  if r.exists? page then return PageOrder.shown (relatives page) else none

/-- The relatives of a page. -/
def relatives? (r : Repository) (t : Tree) (id : NodeId) (path : Option String)
    (listing : Listing) (relatives : String → List String) : Option Document := do
  Placeholder.pageList (← relativePaths? r t id path listing relatives) listing

/-- Fills in what a page says by placeholders. -/
def placeholders (r : Repository) (settings : Settings) (now : Calendar.Moment) : Pass :=
  fun t id =>
    match t.element id with
    | .leaf .tableOfContents => .ok (.put (contentsOf t id))
    | .leaf (.pageName format linked global) => .ok (.ofOption (nameOf? t id format linked global))
    | .leaf .wikiVersion => .ok (.put (.text settings.programNameVersion))
    | .leaf (.parent _) => .ok .delete
    | .leaf (.listPages folder listing) => .ok (.ofOption (folderPages? r t id folder listing))
    | .leaf (.moment format) => .ok (.put (.text (momentText settings now format)))
    | .leaf (.listParents path listing) =>
      .ok (.ofOption (relatives? r t id path listing r.parents))
    | .leaf (.listChildren path listing) =>
      .ok (.ofOption (relatives? r t id path listing r.children))
    | .leaf (.listWantedPages listing) =>
      .ok (.ofOption (Placeholder.pageList (PageOrder.shown (Placeholder.wantedPages r)) listing))
    | .leaf (.listUnlinkedPages hideParents hideChildren listing) =>
      let paths := Placeholder.unlinkedPages r settings hideParents hideChildren
      .ok (.ofOption (Placeholder.pageList (PageOrder.shown paths) listing))
    | _ => .ok .keep

/-! ## Running passes -/

/-- Fuel to start a pass over a tree with: it lasts unless what is put in nests deeply. -/
def passFuel (r : Repository) (t : Tree) : Nat :=
  let stored := r.pages.foldr (fun page nodes => page.2.size + 1 + nodes) 0
  let way := t.size + stored + 64
  way * way * way

/-- Runs a rule over a tree. Only one that never ends is out of fuel. -/
def applyRule (rule : Rule Unit Event.Fault) (r : Repository) (t : Tree) :
    Except (Stop Event.Fault) Tree :=
  match untilDone (fun fuel => page rule fuel t ()) (passFuel r t) with
  | some (.ok (t, _)) => .ok t
  | some (.error stop) => .error stop
  | none => .error .outOfFuel

/-- Runs a pass over a tree. -/
def Pass.apply (pass : Pass) (r : Repository) (t : Tree) : Except (Stop Event.Fault) Tree :=
  applyRule pass.rule r t

/-- The passes over a page that is to be shown, in their order. -/
def passes (r : Repository) (settings : Settings) (now : Calendar.Moment) : List Pass :=
  [inclusion r, contacts now.date, events r settings now.date, placeholders r settings now]

/-- Runs passes one after another. -/
def applyAll (passes : List Pass) (r : Repository) (t : Tree) :
    Except (Stop Event.Fault) Tree :=
  passes.foldlM (fun t pass => pass.apply r t) t

end WikiHtml.Substitution
