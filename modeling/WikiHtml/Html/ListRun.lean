-- The list tags on top of the open tags. List items say only their level and kind; the `ul` and
-- `ol` tags around them are opened and closed here, and any other open tag hides those below it.
import WikiHtml.Html.Writer

namespace WikiHtml.Html

/-- Lists with bullets, and lists with numbers. -/
inductive ListKind where
  | unordered
  | ordered
  deriving DecidableEq, Repr

namespace ListKind

/-- The name of the tag of a list. -/
def tag : ListKind → String
  | .unordered => "ul"
  | .ordered => "ol"

/-- The kind of list that a tag stands for. -/
def ofTag? (tag : String) : Option ListKind :=
  if tag = "ul" then some .unordered
  else if tag = "ol" then some .ordered
  else none

/-- The kind of list that an item belongs to. -/
def ofItem (isOrdered : Bool) : ListKind :=
  if isOrdered then .ordered else .unordered

end ListKind

/-- The lists on top of the open tags, innermost first. -/
def listRun : List String → List ListKind
  | [] => []
  | tag :: outer =>
    match ListKind.ofTag? tag with
    | some kind => kind :: listRun outer
    | none => []

namespace Writer

/-- Closes so many lists, and starts a line after each. -/
def closeLists (w : Writer) : Nat → Writer
  | 0 => w
  | n + 1 => w.closeTag.startLine.closeLists n

/-- Opens so many lists, and starts a line after each. -/
def openLists (w : Writer) (kind : ListKind) : Nat → Writer
  | 0 => w
  | n + 1 => (w.openTag kind.tag "").startLine.openLists kind n

/-- How many lists of a run do not fit: those deeper than the level, and the one at the level if it
is of the other kind. -/
def surplus (run : List ListKind) (level : Nat) (kind : ListKind) : Nat :=
  let deeper := run.length - level
  match run[deeper]? with
  | some innermost => if run.length ≥ level && innermost ≠ kind then deeper + 1 else deeper
  | none => deeper

/-- Closes and opens lists until as many are open as the level says, the innermost one of the
kind. -/
def nestLists (w : Writer) (level : Nat) (kind : ListKind) : Writer :=
  let run := listRun w.stack
  let closed := surplus run level kind
  (w.closeLists closed).openLists kind (level - (run.length - closed))

/-- Closes the lists on top of the open tags. -/
def finishLists (w : Writer) : Writer :=
  w.closeLists (listRun w.stack).length

end Writer

end WikiHtml.Html
