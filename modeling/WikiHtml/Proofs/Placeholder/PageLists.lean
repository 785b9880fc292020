-- Which pages are listed, and how a list of them is written. Who links to whom and who is whose parent
-- is told by the elements that stand in the stored pages, each for the page that it belongs to. A list
-- shows each of its pages once, in the order of shown paths.
import WikiHtml.Placeholder.PageLinks
import WikiHtml.Proofs.Document.Standing
import WikiHtml.Proofs.PagePath
import WikiHtml.Proofs.Repository

namespace WikiHtml

/-! ## Links and parents -/

namespace Repository

open Document

/-- In a stored page stands a link that leads to a path. -/
def HasLink (r : Repository) (page target : String) : Prop :=
  ∃ d, r.get? page = some d ∧ ∃ x ∈ standing none d, linkTarget? x.1 x.2 = some target

/-- In a stored page stands an element that names a path as the parent. -/
def NamesParent (r : Repository) (page parent : String) : Prop :=
  ∃ d, r.get? page = some d ∧ ∃ x ∈ standing none d, parentTarget? x.1 x.2 = some parent

variable {r : Repository} {page target : String}

theorem mem_linkTargets (h : PageOrder.Ascends r.paths) :
    target ∈ r.linkTargets ↔ ∃ page, r.HasLink page target := by
  rw [linkTargets, PageOrder.mem_ascending, List.mem_flatMap]
  constructor
  · rintro ⟨⟨path, d⟩, hm, htarget⟩
    exact ⟨path, d, (get?_eq_some h).mpr hm, mem_linkPaths.mp htarget⟩
  · rintro ⟨path, d, hd, hx⟩
    exact ⟨(path, d), (get?_eq_some h).mp hd, mem_linkPaths.mpr hx⟩

theorem mem_parents : target ∈ r.parents page ↔ r.NamesParent page target := by
  unfold parents NamesParent
  cases r.get? page with
  | none => simp
  | some d => simp [mem_parentPaths]

theorem HasLink.stored : r.HasLink page target → page ∈ r.paths
  | ⟨_, hd, _⟩ => mem_paths_of_get? hd

theorem NamesParent.stored : r.NamesParent page target → page ∈ r.paths
  | ⟨_, hd, _⟩ => mem_paths_of_get? hd

theorem mem_children : page ∈ r.children target ↔ r.NamesParent page target := by
  rw [children, List.mem_filter, List.contains_iff_mem, mem_parents]
  exact ⟨And.right, fun h => ⟨h.stored, h⟩⟩

theorem ascends_parents (r : Repository) (page : String) :
    PageOrder.Ascends (r.parents page) := by
  unfold parents
  cases r.get? page with
  | none => exact List.Pairwise.nil
  | some d => exact PageOrder.ascends_ascending _

end Repository

namespace Placeholder

open Document PagePath

/-! ## Lists as they are written -/

/-- The link to a page in a list. -/
def linkIn (listing : Listing) (path : String) : Document :=
  pageLink path (listing.format.apply path)

/-- A separator stands between every two neighbours and nowhere else. -/
structure Separated (separator : Document) (links members : List Document) : Prop where
  length : members.length = 2 * links.length - 1
  link : ∀ i : Nat, members[2 * i]? = links[i]?
  between : ∀ i : Nat, i + 1 < links.length → members[2 * i + 1]? = some separator

/-- How links are arranged: as items, or in one line, and there with separators if there is one. -/
inductive Arranged (listing : Listing) (links : List Document) : List Document → Prop
  | items (h : listing.inline = false) :
    Arranged listing links (links.map (wrapped (.listItem 1 false)))
  | line (h : listing.inline = true) (hs : listing.separator = none) :
    Arranged listing links links
  | separated {separator : String} {members : List Document} (h : listing.inline = true)
    (hs : listing.separator = some separator) (hm : Separated (text separator) links members) :
    Arranged listing links members

/-- What comes in place of a tag that lists pages, if anything does. -/
inductive Shows (listing : Listing) : List String → Option Document → Prop
  | nothing (h : listing.outputOnEmpty = none) : Shows listing [] none
  | instead {said : String} (h : listing.outputOnEmpty = some said) :
    Shows listing [] (some (text said))
  | links {paths : List String} {members : List Document} (hne : paths ≠ [])
    (h : Arranged listing (paths.map (linkIn listing)) members) :
    Shows listing paths (some (group members))

/-- What comes in place of a tag shows exactly the pages with a property, each once and in order. -/
def Lists (listing : Listing) (P : String → Prop) (answer : Option Document) : Prop :=
  ∃ paths, (∀ path, path ∈ paths ↔ P path) ∧ paths.Nodup ∧ PageOrder.InShownOrder paths ∧
    Shows listing paths answer

theorem separated_intersperse (separator : Document) (links : List Document) :
    Separated separator links (links.intersperse separator) where
  length := List.length_intersperse
  link _ := List.getElem?_intersperse_two_mul
  between _ := List.getElem?_intersperse_two_mul_add_one

theorem shows_pageList (paths : List String) (listing : Listing) :
    Shows listing paths (pageList paths listing) := by
  unfold pageList
  by_cases hempty : paths = []
  · subst hempty
    rw [if_pos rfl]
    cases h : listing.outputOnEmpty with
    | none => exact .nothing h
    | some said => exact .instead h
  · rw [if_neg hempty]
    dsimp only
    cases hline : listing.inline with
    | false => exact .links hempty (.items hline)
    | true =>
      rw [if_pos rfl]
      cases hseparator : listing.separator with
      | none => exact .links hempty (.line hline hseparator)
      | some separator =>
        exact .links hempty (.separated hline hseparator (separated_intersperse _ _))

/-- A set of pages is listed as it should be. -/
theorem lists_shown {paths : List String} (h : PageOrder.Ascends paths) {P : String → Prop}
    (hP : ∀ path, path ∈ paths ↔ P path) (listing : Listing) :
    Lists listing P (pageList (PageOrder.shown paths) listing) :=
  ⟨PageOrder.shown paths, fun path => PageOrder.mem_shown.trans (hP path), h.shown.nodup, h.shown,
    shows_pageList _ listing⟩

/-! ## Wanted pages -/

variable {r : Repository} {settings : Settings} {path target : String}

theorem isFolder_iff : isFolder path = true ↔ EndsInSlash path := by
  rw [isFolder, beq_iff_eq, getLast?_iff_endsInSlash]

theorem mem_wantedPages (h : PageOrder.Ascends r.paths) :
    target ∈ wantedPages r ↔
      (∃ page, r.HasLink page target) ∧ target ∉ r.paths ∧ ¬EndsInSlash target := by
  rw [wantedPages, List.mem_filter, Repository.mem_linkTargets h, Bool.and_eq_true,
    Bool.not_eq_true', Bool.not_eq_true', ← Bool.not_eq_true, ← Bool.not_eq_true, isFolder_iff,
    Repository.exists?_iff]
  exact and_congr_right fun _ => and_comm

/-! ## Pages in folders -/

theorem mem_pagesBelow {folder : Option String} :
    path ∈ pagesBelow r folder ↔
      path ∈ r.paths ∧ ∀ named, folder = some named → LiesIn named path ∨ Overhangs named path := by
  unfold pagesBelow
  cases folder with
  | none => simp
  | some named => simp [List.isPrefixOf_iff_prefix, prefix_folder_iff]

theorem ascends_pagesBelow (h : PageOrder.Ascends r.paths) (folder : Option String) :
    PageOrder.Ascends (pagesBelow r folder) := by
  unfold pagesBelow
  cases folder with
  | none => exact h
  | some named => exact h.filter _

/-! ## Unlinked pages -/

/-- The target of a link counts for a page: that of a folder for its index page, if there is a name for
those, and any other for the page with the path. -/
def CountsFor (settings : Settings) (target page : String) : Prop :=
  match settings.indexPageName with
  | some index =>
    (EndsInSlash target ∧ page = target ++ index) ∨ (¬EndsInSlash target ∧ page = target)
  | none => page = target

/-- A stored page has a link that counts for a page. -/
def LinksTo (r : Repository) (settings : Settings) (source page : String) : Prop :=
  ∃ target, r.HasLink source target ∧ CountsFor settings target page

/-- A stored page that no other page links to. The start page is none, and neither are pages with
stored parents or parents of pages if those are to be hidden. -/
structure Orphan (r : Repository) (settings : Settings) (hideParents hideChildren : Bool)
    (page : String) : Prop where
  stored : page ∈ r.paths
  unlinked : ∀ other, other ≠ page → ¬LinksTo r settings other page
  notStart : page ≠ settings.startPage
  noParent : hideChildren = true → ∀ parent ∈ r.paths, ¬r.NamesParent page parent
  noChild : hideParents = true → ∀ child, ¬r.NamesParent child page

theorem linkedPage_eq_iff {page : String} :
    linkedPage settings target = page ↔ CountsFor settings target page := by
  unfold linkedPage CountsFor
  cases settings.indexPageName with
  | none => exact eq_comm
  | some index =>
    by_cases hfolder : EndsInSlash target
    · simp [isFolder_iff.mpr hfolder, hfolder, eq_comm]
    · simp [mt isFolder_iff.mp hfolder, hfolder, eq_comm]

theorem isChild_iff : isChild r path = true ↔ ∃ parent ∈ r.paths, r.NamesParent path parent := by
  simp only [isChild, List.any_eq_true, Repository.mem_parents, Repository.exists?_iff, and_comm]

theorem mem_allParents : target ∈ allParents r ↔ ∃ child, r.NamesParent child target := by
  simp only [allParents, List.mem_flatMap, Repository.mem_parents]
  exact exists_congr fun child => ⟨And.right, fun h => ⟨h.stored, h⟩⟩

/-- The pages that nothing links to are the orphans without links to themselves. -/
theorem mem_unlinkedPages (h : PageOrder.Ascends r.paths) {hideParents hideChildren : Bool} :
    path ∈ unlinkedPages r settings hideParents hideChildren ↔
      Orphan r settings hideParents hideChildren path ∧ ¬LinksTo r settings path path := by
  have hlinked : path ∈ r.linkTargets.map (linkedPage settings) ↔
      ∃ source, LinksTo r settings source path := by
    simp only [List.mem_map, Repository.mem_linkTargets h, linkedPage_eq_iff, LinksTo]
    exact ⟨fun ⟨target, ⟨source, hlink⟩, hcounts⟩ => ⟨source, target, hlink, hcounts⟩,
      fun ⟨source, target, hlink, hcounts⟩ => ⟨target, ⟨source, hlink⟩, hcounts⟩⟩
  have hparents : path ∈ (if hideParents then allParents r else []) ↔
      hideParents = true ∧ ∃ child, r.NamesParent child path := by
    cases hideParents <;> simp [mem_allParents]
  have hmem : path ∈ unlinkedPages r settings hideParents hideChildren ↔
      path ∈ r.paths ∧ (¬∃ source, LinksTo r settings source path) ∧ path ≠ settings.startPage ∧
        ¬(hideParents = true ∧ ∃ child, r.NamesParent child path) ∧
        ¬(hideChildren = true ∧ ∃ parent ∈ r.paths, r.NamesParent path parent) := by
    rw [unlinkedPages, List.mem_filter, ← hlinked, ← hparents, ← isChild_iff]
    cases hideParents <;> cases hideChildren <;> simp [and_assoc]
  rw [hmem]
  constructor
  · rintro ⟨hstored, hunlinked, hstart, hparent, hchild⟩
    exact ⟨⟨hstored, fun other _ hlinks => hunlinked ⟨other, hlinks⟩, hstart,
      fun hide parent hm hnames => hchild ⟨hide, parent, hm, hnames⟩,
      fun hide child hnames => hparent ⟨hide, child, hnames⟩⟩,
      fun hself => hunlinked ⟨path, hself⟩⟩
  · rintro ⟨horphan, hself⟩
    refine ⟨horphan.stored, ?_, horphan.notStart, ?_, ?_⟩
    · rintro ⟨source, hlinks⟩
      by_cases hsame : source = path
      · exact hself (hsame ▸ hlinks)
      · exact horphan.unlinked source hsame hlinks
    · rintro ⟨hide, child, hnames⟩
      exact horphan.noChild hide child hnames
    · rintro ⟨hide, parent, hm, hnames⟩
      exact horphan.noParent hide parent hm hnames

end Placeholder

end WikiHtml
