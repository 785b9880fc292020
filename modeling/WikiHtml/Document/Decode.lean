-- Documents written in JSON: an element is an object that names its kind in `type` and holds the
-- fields of that kind; fields of other kinds do not count.
import WikiHtml.Document
import WikiHtml.Json.Reader
import WikiHtml.Json.Fields

namespace WikiHtml.Document

open Json

/-! ## Fields of elements -/

/-- The limits of whole numbers of 8, 32 and 64 bits. -/
def byteLimit : Nat := Nat.pow 2 8

@[inherit_doc byteLimit]
def wordLimit : Nat := Nat.pow 2 32

@[inherit_doc byteLimit]
def sizeLimit : Nat := Nat.pow 2 64

/-- A choice out of named values: the name alone, or an object with the name as its only key. -/
def choice? (values : List (String × α)) : Decoder α
  | .string (some name) => values.lookup name
  | .object [(some name, .null)] => values.lookup name
  | .object [(some name, .object [])] => values.lookup name
  | _ => none

/-- The state of a task. -/
def taskState? : Decoder TaskState :=
  choice? [("open", .open), ("important", .important), ("closed", .closed)]

/-- The shown part of a page path. -/
def nameFormat? : Decoder NameFormat :=
  choice? [("path", .path), ("folder", .folder), ("title", .title)]

/-- The shown parts of the current time. -/
def momentFormat? : Decoder MomentFormat :=
  choice? [("date", .date), ("time", .time), ("date-time", .dateTime)]

/-- How a list of pages is shown. -/
def listing? : Decoder Listing := fun json => do
  let fields ← record? ["format", "inline", "separator", "output_on_empty", "global"] 0 json
  return {
    format := ← defaulted? fields "format" nameFormat? .path
    inline := ← defaulted? fields "inline" bool? false
    separator := ← optional? fields "separator" text?
    outputOnEmpty := ← optional? fields "output_on_empty" text?
    global := ← defaulted? fields "global" bool? false }

/-- The listing of an element. -/
def listingOf? (fields : Members) : Option Listing :=
  defaulted? fields "listing" listing? Listing.standard

/-- A range of the source text, written as its two ends. -/
def span? : Decoder Span
  | .array [first, last] => do
    return ⟨← natBelow? sizeLimit first, ← natBelow? sizeLimit last⟩
  | _ => none

/-- A table cell. -/
def cell? (node : Decoder α) : Decoder (Cell α) := fun json => do
  let fields ← record? ["header", "params", "content"] 3 json
  return {
    header := ← defaulted? fields "header" bool? false
    params := ← optional? fields "params" text?
    content := ← optional? fields "content" node }

/-- A table row. -/
def row? (node : Decoder α) : Decoder (Row α) := fun json => do
  let fields ← record? ["params", "cells"] 1 json
  return {
    params := ← optional? fields "params" text?
    cells := ← defaulted? fields "cells" (array? (cell? node)) [] }

/-! ## Elements -/

/-- The names of the kinds in their order; a kind may also be given by its place in it. -/
def kindNames : List String :=
  ["list", "page", "heading", "paragraph", "list-item", "bold", "italic", "underlined",
   "strikethrough", "monospace", "small", "color", "style", "html-tag", "xml-tag", "link-page",
   "link-wiki", "link-local-file", "link-external", "text", "line-break", "nowiki", "html",
   "anchor", "image", "search-input", "separator", "vertical-space", "task", "code", "table",
   "include-page", "table-of-contents", "page-name", "wiki-version", "parent", "list-pages",
   "date-time", "list-parents", "list-children", "list-wanted-pages", "list-unlinked-pages"]

/-- The name of a kind. -/
def kind? : Decoder String
  | .string text => text
  | .number n => n.nat?.bind (kindNames[·]?)
  | _ => none

/-- What an element of a kind that may hold one says besides the element that it holds. -/
def wrapper? (fields : Members) : String → Option Wrapper
  | "page" => return .page (← optional? fields "path" text?)
  | "heading" => return .heading (← required? fields "level" (natBelow? byteLimit))
  | "paragraph" =>
    return .paragraph (← defaulted? fields "centered" bool? false)
      (← defaulted? fields "indention" (natBelow? wordLimit) 0)
      (← defaulted? fields "vertical_spacing" bool? false)
  | "list-item" =>
    return .listItem (← defaulted? fields "level" (natBelow? sizeLimit) 1)
      (← defaulted? fields "ordered" bool? false)
  | "bold" => some .bold
  | "italic" => some .italic
  | "underlined" => some .underlined
  | "strikethrough" => some .strikethrough
  | "monospace" => some .monospace
  | "small" => some .small
  | "color" => return .color (← required? fields "name" text?)
  | "style" => return .style (← defaulted? fields "classes" (array? text?) [])
  | "html-tag" =>
    return .htmlTag (← required? fields "name" text?) (← optional? fields "attributes" text?)
  | "xml-tag" =>
    return .xmlTag (← optional? fields "prefix" text?) (← required? fields "name" text?)
      (← defaulted? fields "options" texts? [])
  | "link-page" =>
    return .linkPage (← optional? fields "path" text?) (← optional? fields "anchor" text?)
  | "link-wiki" => return .linkWiki (← required? fields "command" text?)
  | "link-local-file" => return .linkLocalFile (← required? fields "path" text?)
  | "link-external" => return .linkExternal (← required? fields "url" text?)
  | _ => none

/-- An element of a kind that holds none. -/
def leaf? (fields : Members) : String → Option Leaf
  | "text" => return .text (← required? fields "text" text?)
  | "line-break" => some .lineBreak
  | "nowiki" => return .nowiki (← required? fields "text" text?)
  | "html" => return .html (← required? fields "text" text?)
  | "anchor" => return .anchor (← required? fields "name" text?)
  | "image" =>
    return .image (← required? fields "url" text?) (← defaulted? fields "options" texts? [])
  | "search-input" => some .searchInput
  | "separator" => some .separator
  | "vertical-space" => some .verticalSpace
  | "task" =>
    return .task (← defaulted? fields "state" taskState? .open)
      (← optional? fields "schedule" text?) (← optional? fields "description" text?)
  | "code" =>
    return .code (← optional? fields "language" text?) (← defaulted? fields "text" text? "")
  | "include-page" => return .includePage (← required? fields "path" text?)
  | "table-of-contents" => some .tableOfContents
  | "page-name" =>
    return .pageName (← defaulted? fields "format" nameFormat? .path)
      (← defaulted? fields "linked" bool? false) (← defaulted? fields "global" bool? false)
  | "wiki-version" => some .wikiVersion
  | "parent" => return .parent (← optional? fields "path" text?)
  | "list-pages" =>
    return .listPages (← optional? fields "folder" text?) (← listingOf? fields)
  | "date-time" => return .moment (← defaulted? fields "format" momentFormat? .date)
  | "list-parents" =>
    return .listParents (← optional? fields "path" text?) (← listingOf? fields)
  | "list-children" =>
    return .listChildren (← optional? fields "path" text?) (← listingOf? fields)
  | "list-wanted-pages" => return .listWantedPages (← listingOf? fields)
  | "list-unlinked-pages" =>
    return .listUnlinkedPages (← defaulted? fields "hide_parents" bool? false)
      (← defaulted? fields "hide_children" bool? false) (← listingOf? fields)
  | _ => none

/-- The kinds that may hold one element. -/
def wrapperKinds : List String :=
  ["page", "heading", "paragraph", "list-item", "bold", "italic", "underlined", "strikethrough",
   "monospace", "small", "color", "style", "html-tag", "xml-tag", "link-page", "link-wiki",
   "link-local-file", "link-external"]

/-- An element of the given kind. -/
def element? (node : Decoder α) (fields : Members) (kind : String) : Option (Element α) :=
  if kind = "list" then
    return .list (← defaulted? fields "items" (array? node) [])
  else if kind = "table" then
    return .table (← optional? fields "params" text?)
      (← defaulted? fields "rows" (array? (row? node)) [])
  else if kind ∈ wrapperKinds then
    return .wrap (← wrapper? fields kind) (← optional? fields "child" node)
  else
    return .leaf (← leaf? fields kind)

/-! ## Documents -/

/-- A document nested less deep than the given bound. -/
def node? : Nat → Decoder Document
  | bound + 1, .object members => do
    let kind ← required? members "type" kind?
    let span ← optional? members "span" span?
    return .node (← element? (node? bound) members kind) span
  | _, _ => none

/-- The document that a value describes. -/
def ofJson? (json : Json) : Option Document :=
  if json.isSound then node? (nestingLimit + 1) json else none

/-- The document that a text describes. -/
def parse? (text : String) : Option Document := do
  ofJson? (← Json.parse? text)

end WikiHtml.Document
