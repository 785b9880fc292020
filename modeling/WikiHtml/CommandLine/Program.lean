-- The program: it renders a page to a web page, or highlights a file of code.
import WikiHtml.CommandLine.Failure
import WikiHtml.Highlight.Language
import WikiHtml.Html.Page
import WikiHtml.Html.WebPage
import WikiHtml.Substitution.Rewriting

namespace WikiHtml.CommandLine

/-- What a run of the program shows: its output, and the failure if there is one. -/
structure Outcome where
  output : String
  failure : Option Failure
  deriving DecidableEq, Repr

namespace Outcome

/-- The exit code. -/
def exitCode (o : Outcome) : Nat :=
  match o.failure with
  | some failure => failure.exitCode
  | none => 0

/-- What is said about the failure. -/
def errors (o : Outcome) : String :=
  match o.failure with
  | some failure => failure.report
  | none => ""

end Outcome

/-- How the program is used. -/
def usageText : String :=
  Settings.standard.programNameVersion ++ "\n"
    ++ "Usage: wiki-render [options] <page.json>\n"
    ++ "       wiki-render --highlight <language> <file>\n\n"
    ++ "or, use environment variables:\n"
    ++ "    WIKI_RENDER_CONFIG\n\n"
    ++ "Options:\n"
    ++ "    --config: Settings file (JSON)\n"
    ++ "    --pages: Directory of page trees (*.json) for links and inclusions\n"
    ++ "    --no-edit-links: Do not render edit links\n\n"

/-! ## Pages without files -/

/-- The web page of a failure to load a page. -/
def failurePage (settings : Settings) (failure : Failure) : String :=
  Html.webPage (Html.errorPage "Error" "The page could not be loaded." (some failure.line))
    settings settings.head

/-- What is written for a page; an empty one says that it is empty, and a page with a path has its
name as the title. -/
def written (v : Html.View) (path : Option String) (document : Document) : Html.Writer :=
  let w := Html.page v document
  let w := if w.body = [] then Html.messagePage "This page is empty." else w
  match path with
  | some path => w.setTitle (PagePath.name path)
  | none => w

/-- The web page of a tree, after all passes over it. -/
def render (r : Repository) (settings : Settings) (editLinks : Bool) (now : Calendar.Moment)
    (t : Tree) : Except Failure String := do
  let t ← match Substitution.rewriteAll Substitution.PassName.all r settings now t with
    | .ok t => .ok t
    | .error _ => .error .tooManyDays
  match t.root with
  | none => throw .noRoot
  | some root =>
    let v := ⟨r, settings, settings.editLinks && editLinks⟩
    let w := written v (t.pagePath root) t.rootDocument
    return Html.webPage w settings settings.head

/-! ## Reading files -/

variable {m : Type → Type} [Monad m]

/-- Reads a file; `fault` says what it means that this fails. -/
def read (disk : Disk m) (file : String) (fault : FileFault → Failure) :
    ExceptT Failure m String := do
  match ← disk.read file with
  | .ok text => return text
  | .error cause => throw (fault cause)

/-- Reads the settings, which are the standard ones if no file is named. -/
def readSettings (disk : Disk m) : Option String → ExceptT Failure m Settings
  | none => return .standard
  | some file => do
    let text ← read disk file fun cause => .settings file (.unreadable cause)
    match Settings.parse? text with
    | some settings => return settings
    | none => throw (.settings file .invalid)

/-- What it means that a page file cannot be read: a folder can be opened at least. -/
def pageFault : FileFault → PageFault
  | .isFolder => .unreadable .isFolder
  | .notText => .unreadable .notText
  | fault => .unopened fault

/-- Reads the tree of a page. -/
def readTree (disk : Disk m) (file : String) : ExceptT Failure m Tree := do
  let text ← read disk file fun cause => .page file (pageFault cause)
  match Tree.parse text with
  | .ok t => return t
  | .error cause => throw (.page file (.undecoded cause))

/-- Stores the page of a file, if the file stands for one. -/
def storeFile (disk : Disk m) (top file name : String) (r : Repository) :
    ExceptT Failure m Repository := do
  match FilePath.pagePath? top file with
  | some path =>
    if FilePath.extension? name = some "json" then
      return r.insert path (← readTree disk file).rootDocument
    else return r
  | none => return r

mutual

/-- Stores the pages of a folder, which has at most so many folders within each other. -/
def storeFolder (disk : Disk m) (top : String) :
    Nat → String → Repository → ExceptT Failure m Repository
  | 0, _, r => return r
  | depth + 1, folder, r => do
    match ← disk.list folder with
    | .error cause => throw (.folder folder cause)
    | .ok names => storeNames disk top depth folder names r

/-- Stores the pages of some names in a folder. -/
def storeNames (disk : Disk m) (top : String) (depth : Nat) (folder : String) :
    List String → Repository → ExceptT Failure m Repository
  | [], r => return r
  | name :: rest, r => do
    let path := FilePath.child folder name
    let r ←
      if ← disk.hasFolder path then storeFolder disk top depth path r
      else storeFile disk top path name r
    storeNames disk top depth folder rest r

end

/-- More than there can be folders within each other, since their names stand in one path. -/
def deepest : Nat := 4096

/-- The stored pages of a folder. -/
def readPages (disk : Disk m) : Option String → ExceptT Failure m Repository
  | none => return .empty
  | some folder => storeFolder disk folder deepest folder .empty

/-- The tree of a page: the stored one if the file lies in the folder of the stored pages, and else
that of the file. -/
def pageTree (disk : Disk m) (r : Repository) (request : PageRequest) : ExceptT Failure m Tree :=
  let stored := do r.get? (← FilePath.pagePath? (← request.pages) request.file)
  match stored with
  | some document => return .ofDocument document
  | none => readTree disk request.file

/-! ## Running -/

/-- Goes on after a failure, and tells it. -/
def attempt {α : Type} (x : ExceptT Failure m α) : ExceptT Failure m (Except Failure α) :=
  ExceptT.lift x.run

/-- Highlights a file of code. -/
def highlight (disk : Disk m) (language file : String) : ExceptT Failure m Outcome := do
  let text ← read disk file (.code file)
  return ⟨Highlight.html (some language) text ++ "\n", none⟩

/-- Renders a page. A page that cannot be loaded is shown as a web page that says so. -/
def renderPage (disk : Disk m) (now : Calendar.Moment) (request : PageRequest) :
    ExceptT Failure m Outcome := do
  let settings ← readSettings disk request.config
  let r ← readPages disk request.pages
  match ← attempt (pageTree disk r request) with
  | .error failure => return ⟨failurePage settings failure, some failure⟩
  | .ok t =>
    let html ← (render r settings request.editLinks now t : Except Failure String)
    return ⟨html, none⟩

/-- Does what is requested. -/
def perform (disk : Disk m) (now : Calendar.Moment) : Request → ExceptT Failure m Outcome
  | .help => return ⟨usageText, none⟩
  | .highlight language file => highlight disk language file
  | .page request => renderPage disk now request

/-- A run of the program with its arguments, where `config` is the file of the settings if no
option names it. -/
def run (disk : Disk m) (now : Calendar.Moment) (config : Option String) (args : List String) :
    m Outcome := do
  match Request.parse config args with
  | .error fault => return ⟨if fault.showsUsage then usageText else "", some (.usage fault)⟩
  | .ok request =>
    match ← (perform disk now request).run with
    | .error failure => return ⟨"", some failure⟩
    | .ok outcome => return outcome

end WikiHtml.CommandLine
