-- What a wiki is rendered with: its name and version, files to link, special pages, and the texts
-- of its messages.
import WikiHtml.Json.Reader
import WikiHtml.Json.Fields

namespace WikiHtml

/-- The settings of a wiki. Messages are in the order in which their keys came first. -/
structure Settings where
  programName : String
  version : String
  editLinks : Bool
  head : Option String
  stylesheets : List String
  scripts : List String
  startPage : String
  indexPageName : Option String
  messages : List (String × String)
  deriving DecidableEq, Repr

namespace Settings

/-- The settings where nothing is said. -/
def standard : Settings where
  programName := "wiki-render"
  version := "2026.10.1-pre"
  editLinks := true
  head := none
  stylesheets := []
  scripts := []
  startPage := "/Home"
  indexPageName := some "Index"
  messages := []

/-- The message of a key, or the key itself if there is none. -/
def message (s : Settings) (key : String) : String :=
  (s.messages.lookup key).getD key

/-- The program name and its version. -/
def programNameVersion (s : Settings) : String :=
  s.programName ++ " " ++ s.version

/-! ## Reading settings -/

/-- The names of the settings, in their order. -/
def fieldNames : List String :=
  ["program-name", "version", "edit-links", "head", "stylesheets", "scripts", "start-page",
   "index-page-name", "messages"]

open Json in
/-- The setting that may be null, and keeps its standard only if it is missing. -/
def nullableField? (fields : Members) (name : String) (standard : Option String) :
    Option (Option String) :=
  defaulted? fields name (nullable? text?) standard

open Json in
/-- The settings that a value describes. Values of unknown settings do not count, whatever they
hold. -/
def ofJson? (json : Json) : Option Settings := do
  let fields ← record? fieldNames 0 json
  if fields.any (·.1.isNone) then none
  return {
    programName := ← defaulted? fields "program-name" text? standard.programName
    version := ← defaulted? fields "version" text? standard.version
    editLinks := ← defaulted? fields "edit-links" bool? standard.editLinks
    head := ← nullableField? fields "head" standard.head
    stylesheets := ← defaulted? fields "stylesheets" (array? text?) standard.stylesheets
    scripts := ← defaulted? fields "scripts" (array? text?) standard.scripts
    startPage := ← defaulted? fields "start-page" text? standard.startPage
    indexPageName := ← nullableField? fields "index-page-name" standard.indexPageName
    messages := ← defaulted? fields "messages" texts? standard.messages }

/-- The settings that a text describes. -/
def parse? (text : String) : Option Settings := do
  ofJson? (← Json.parse? text)

end Settings

end WikiHtml
