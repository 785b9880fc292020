-- Where links lead and what they show: links to pages, to commands of the wiki, to files and to the
-- world outside.
import WikiHtml.Html.EditLink

namespace WikiHtml.Html

/-! ## Links to pages -/

/-- Where a link leads: the URL with what means something in URLs written otherwise, and whether
the page is a new one. -/
structure Target where
  url : String
  isNew : Bool

/-- Where a link to a page leads: to the page, or to the editor if it is not stored. A link without
a path stays in its page. -/
def pageTarget (r : Repository) (place : Place) (path : Option String) : Target :=
  match path.bind place.absolutePath with
  | some target =>
    if target.toList.getLast? = some '/' || r.exists? target then
      ⟨PagePath.toUrl ("/view" ++ target), false⟩
    else ⟨PagePath.toUrl ("/edit" ++ target), true⟩
  | none => ⟨"", false⟩

/-- The place in the target that a link leads to; a new page has none. -/
def Target.anchor? (target : Target) (anchor : Option String) : Option String :=
  if target.isNew then none else anchor

/-- The URL of a link with the place in its target. -/
def Target.fullUrl (target : Target) (anchor : Option String) : String :=
  match anchor with
  | some anchor => target.url ++ "#" ++ Text.encodeUrlParameter anchor
  | none => target.url

/-- The attributes of a link to a page. -/
def Target.attributes (target : Target) (anchor : Option String) : String :=
  let href := urlAttr "href" (target.fullUrl (target.anchor? anchor))
  if target.isNew then attr "class" "linknewpage" ++ " " ++ href else href

/-- The path without a `/` at its end, if it has one there. -/
def folderOf? (path : String) : Option String :=
  match path.toList.reverse with
  | '/' :: rest => some (String.ofList rest.reverse)
  | _ => none

/-- The name that a link to a page shows: that of the page, or of the folder. -/
def shownName (path : String) : String :=
  match folderOf? path with
  | some folder => if PagePath.name folder = "" then "/" else PagePath.name folder
  | none => PagePath.name path

/-- What a link to a page shows if it holds nothing. -/
def Target.label (target : Target) (path anchor : Option String) : String :=
  ((path.map shownName).getD "")
    ++ (((target.anchor? anchor).map fun anchor => "#" ++ anchor).getD "")

/-! ## Links to commands -/

/-- What a command of the wiki stands for: where it leads, if that is known, and the key of its
text. -/
structure Command where
  url : Option String
  message : String

/-- The commands of the wiki, for the path of the outermost page. -/
def command? (outermost : Option String) (name : String) : Option Command :=
  match name with
  | "startpage" => some ⟨some "/", "ViewPageHandler.wiki.startpage"⟩
  | "editpage" => some ⟨outermost.map (PagePath.join "/edit/"), "ViewPageHandler.wiki.editpage"⟩
  | "newpage" =>
    let folder := outermost.map fun path => PagePath.join "/edit/" (PagePath.folder path)
    some ⟨some (folder.getD "/edit/"), "ViewPageHandler.wiki.newpage"⟩
  | "shutdown" => some ⟨some "/shutdown", "ViewPageHandler.wiki.shutdown"⟩
  | "status" => some ⟨some "/status", "ViewPageHandler.wiki.status"⟩
  | _ => none

/-! ## Links to the world -/

/-- The class and the label of a link to a URL outside of the wiki. -/
def externalLink (url : String) : String × String :=
  match url.toList with
  | 'm' :: 'a' :: 'i' :: 'l' :: 't' :: 'o' :: ':' :: address =>
    ("linkemail", String.ofList address)
  | _ => ("linkexternal", url)

/-- The source of an image: its URL, or the file of the wiki that its path leads to. -/
def imageSource? (place : Place) (url : String) : Option String :=
  match url.toList with
  | 'h' :: 't' :: 't' :: 'p' :: _ => some url
  | _ =>
    (place.absolutePath url).map fun target => Text.encodeUrl (PagePath.toUrl ("/img" ++ target))

end WikiHtml.Html
