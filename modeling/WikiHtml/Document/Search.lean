-- Searching a document from the top down: all elements of a kind, the outermost ones of a kind, the
-- texts, and the paths that links and parents name.
import WikiHtml.Document
import WikiHtml.PageOrder

namespace WikiHtml.Document

variable {α σ : Type}

mutual

/-- All that is found from the top down, in the order of the document. At each element `visit` says
what is found there, and with which value the search goes on below, unless it ends there. -/
def search (visit : σ → Document → List α × Option σ) (s : σ) : Document → List α
  | .node element span =>
    let (found, below) := visit s (.node element span)
    match below with
    | none => found
    | some s =>
      found ++
        (match element with
        | .list members => searchMembers visit s members
        | .wrap _ child => searchChild visit s child
        | .table _ rows => searchRows visit s rows
        | .leaf _ => [])

/-- What is found in the members of a list. -/
def searchMembers (visit : σ → Document → List α × Option σ) (s : σ) : List Document → List α
  | [] => []
  | document :: rest => search visit s document ++ searchMembers visit s rest

/-- What is found below an element that may hold one. -/
def searchChild (visit : σ → Document → List α × Option σ) (s : σ) : Option Document → List α
  | none => []
  | some document => search visit s document

/-- What is found in the rows of a table. -/
def searchRows (visit : σ → Document → List α × Option σ) (s : σ) : List (Row Document) → List α
  | [] => []
  | ⟨_, cells⟩ :: rest => searchCells visit s cells ++ searchRows visit s rest

/-- What is found in the cells of a row. -/
def searchCells (visit : σ → Document → List α × Option σ) (s : σ) : List (Cell Document) → List α
  | [] => []
  | ⟨_, _, content⟩ :: rest => searchChild visit s content ++ searchCells visit s rest

end

/-! ## Elements -/

/-- What `pick` takes from the elements, from the top down. -/
def all (pick : Element Document → Option α) (document : Document) : List α :=
  document.search (fun (_ : Unit) d => ((pick d.element).toList, some ())) ()

/-- What `pick` takes from the elements, without those below one that it takes something from. -/
def outermost (pick : Element Document → Option α) (document : Document) : List α :=
  document.search (fun (_ : Unit) d =>
    match pick d.element with
    | some found => ([found], none)
    | none => ([], some ())) ()

/-- How many elements there are. -/
def size (document : Document) : Nat :=
  (document.all fun _ => some ()).length

/-- The text of a text element. -/
def textOf? : Element Document → Option String
  | .leaf (.text text) => some text
  | _ => none

/-- The texts, joined. -/
def textContent (document : Document) : String :=
  String.join (document.all textOf?)

/-! ## Paths -/

/-- The page that an element belongs to, given by its path, if there is such a page. -/
abbrev Context := Option (Option String)

/-- A path made absolute for the folder of a page; without a path that of the page. -/
def absolutePath (path : Option String) (context : Context) : Option String :=
  match context with
  | none => none
  | some pagePath =>
    match path with
    | some relative =>
      some (PagePath.makeAbsolute (some relative) (pagePath.map PagePath.folder))
    | none => pagePath

/-- The page that an element and all below it belong to, up to the next page. -/
def contextOf (outer : Context) : Element Document → Context
  | .wrap (.page path) _ => some path
  | _ => outer

/-- The path that an element names, absolute for the page that it belongs to; `name` says whether
an element names one, and which. -/
def namedPaths (name : Element Document → Option (Option String)) (document : Document) :
    List String :=
  PageOrder.ascending (document.search (fun (outer : Context) d =>
    let context := contextOf outer d.element
    (((name d.element).bind fun path => absolutePath path context).toList, some context)) none)

/-- The targets of the page links; a link without a path has the page that it belongs to. -/
def linkPaths : Document → List String :=
  namedPaths fun
    | .wrap (.linkPage path _) _ => some path
    | _ => none

/-- The pages that are named as parents. -/
def parentPaths : Document → List String :=
  namedPaths fun
    | .leaf (.parent (some path)) => some (some path)
    | _ => none

end WikiHtml.Document
