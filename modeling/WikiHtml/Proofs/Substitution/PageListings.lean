-- What comes in place of the tags that list pages. The relatives of a page and the wanted pages are
-- listed exactly. Among the unlinked pages one with a link to itself is missing, and among the pages of
-- a folder stand those of other folders whose names only start with its name.
import WikiHtml.Proofs.Placeholder.PageLists
import WikiHtml.Proofs.Substitution.ProperTree

namespace WikiHtml.Substitution

open Calendar Document PagePath Placeholder

variable {r : Repository} {t : Tree} {id : NodeId} {listing : Listing}

/-- A page that asks for something by a placeholder, which is node 0 of its tree. -/
def asking (leaf : Leaf) : Document :=
  wrapped (.page (some "/p")) (ofLeaf leaf)

/-- A stored page of some content. -/
def pageOf (members : List Document) : Document :=
  wrapped (.page none) (group members)

/-! ## Relatives and wanted pages -/

/-- What comes in place of a tag shows exactly the relatives of a page if the page is stored, and
otherwise nothing comes there. -/
structure ListsRelatives (r : Repository) (listing : Listing) (page : Option String)
    (IsRelative : String → String → Prop) (answer : Option Document) : Prop where
  stored : ∀ path ∈ r.paths, page = some path → Lists listing (IsRelative path) answer
  missing : (∀ path ∈ r.paths, page ≠ some path) → answer = none

theorem listsRelatives_relatives? {path : Option String} {relatives : String → List String}
    {IsRelative : String → String → Prop} (hset : ∀ page, PageOrder.Ascends (relatives page))
    (hmem : ∀ page other, other ∈ relatives page ↔ IsRelative page other) :
    ListsRelatives r listing (t.absolutePath path (t.contextPage id listing.global)) IsRelative
      (relatives? r t id path listing relatives) := by
  unfold relatives? relativePaths?
  cases t.absolutePath path (t.contextPage id listing.global) with
  | none => exact ⟨nofun, fun _ => rfl⟩
  | some page =>
    simp only [Option.bind_eq_bind, Option.bind_some]
    by_cases hstored : page ∈ r.paths
    · refine ⟨?_, fun hmissing => absurd rfl (hmissing page hstored)⟩
      rintro _ _ ⟨⟩
      rw [if_pos (Repository.exists?_iff.mpr hstored)]
      exact lists_shown (hset page) (hmem page) listing
    · refine ⟨?_, fun _ => by rw [if_neg (mt Repository.exists?_iff.mp hstored), Option.bind_none]⟩
      rintro _ hpath ⟨⟩
      exact absurd hpath hstored

/-- The children of a page, its parents, and the pages that are wanted are listed exactly. -/
theorem relatives_and_wanted_pages_are_listed_exactly (pages : List (String × Document))
    (settings : Settings) (now : Moment) (t : Tree) (id : NodeId) :
    let r := Repository.ofPages pages
    (∀ path listing, t.element id = .leaf (.listChildren path listing) →
      ∃ answer, placeholders r settings now t id = .ok (.ofOption answer) ∧
        ListsRelatives r listing (t.absolutePath path (t.contextPage id listing.global))
          (fun page child => r.NamesParent child page) answer) ∧
    (∀ path listing, t.element id = .leaf (.listParents path listing) →
      ∃ answer, placeholders r settings now t id = .ok (.ofOption answer) ∧
        ListsRelatives r listing (t.absolutePath path (t.contextPage id listing.global))
          (fun page parent => r.NamesParent page parent) answer) ∧
    ∀ listing, t.element id = .leaf (.listWantedPages listing) →
      ∃ answer, placeholders r settings now t id = .ok (.ofOption answer) ∧
        Lists listing (fun target => (∃ page, r.HasLink page target) ∧ target ∉ r.paths ∧
          ¬EndsInSlash target) answer := by
  intro r
  have hr : PageOrder.Ascends r.paths := Repository.ascends_ofPages pages
  refine ⟨?_, ?_, ?_⟩
  · intro path listing he
    refine ⟨relatives? r t id path listing r.children, by simp only [placeholders, he], ?_⟩
    exact listsRelatives_relatives? (fun _ => hr.filter _) fun _ _ => Repository.mem_children
  · intro path listing he
    refine ⟨relatives? r t id path listing r.parents, by simp only [placeholders, he], ?_⟩
    exact listsRelatives_relatives? r.ascends_parents fun _ _ => Repository.mem_parents
  · intro listing he
    refine ⟨pageList (PageOrder.shown (wantedPages r)) listing, by simp only [placeholders, he], ?_⟩
    exact lists_shown ((PageOrder.ascends_ascending _).filter _) (fun _ => mem_wantedPages hr) listing

/-- A page that another one names as its parent, without a link to it. -/
def family : List (String × Document) :=
  [("/p", pageOf []), ("/p/c", pageOf [ofLeaf (.parent (some "/p")), pageLink "d" "d"])]

/-- The page has one child, whose parent it is, and which wants one page. -/
theorem a_child_its_parent_and_the_page_that_it_wants_are_listed :
    let listed := fun tag path =>
      ∃ answer, placeholders (.ofPages family) .standard noon (Tree.ofDocument (asking tag)) 0 =
        .ok (.ofOption answer) ∧ Lists .standard (fun page => page = path) answer
    listed (.listChildren none .standard) "/p/c" ∧
      listed (.listParents (some "/p/c") .standard) "/p" ∧
      listed (.listWantedPages .standard) "/p/d" := by
  intro listed
  have hr := Repository.ascends_ofPages family
  have hchildren : (Repository.ofPages family).children "/p" = ["/p/c"] := by decide
  have hparents : (Repository.ofPages family).parents "/p/c" = ["/p"] := by decide
  have hwanted : wantedPages (.ofPages family) = ["/p/d"] := by decide
  have hexact (tag : Leaf) := relatives_and_wanted_pages_are_listed_exactly family .standard noon
    (Tree.ofDocument (asking tag)) 0
  refine ⟨?_, ?_, ?_⟩
  · obtain ⟨answer, hanswer, hlists⟩ := (hexact _).1 none .standard rfl
    have hlisted := hlists.stored "/p" (by decide) rfl
    simp only [← Repository.mem_children, hchildren, List.mem_singleton] at hlisted
    exact ⟨answer, hanswer, hlisted⟩
  · obtain ⟨answer, hanswer, hlists⟩ := (hexact _).2.1 (some "/p/c") .standard rfl
    have hlisted := hlists.stored "/p/c" (by decide) rfl
    simp only [← Repository.mem_parents, hparents, List.mem_singleton] at hlisted
    exact ⟨answer, hanswer, hlisted⟩
  · obtain ⟨answer, hanswer, hlists⟩ := (hexact _).2.2 .standard rfl
    simp only [← mem_wantedPages hr, hwanted, List.mem_singleton] at hlists
    exact ⟨answer, hanswer, hlists⟩

/-! ## Unlinked pages -/

/-- Of the pages that no other page links to, those without a link to themselves are listed. -/
theorem orphans_without_links_to_themselves_are_listed (pages : List (String × Document))
    (settings : Settings) (now : Moment) (t : Tree) (id : NodeId) {hideParents hideChildren : Bool}
    (he : t.element id = .leaf (.listUnlinkedPages hideParents hideChildren listing)) :
    let r := Repository.ofPages pages
    ∃ answer, placeholders r settings now t id = .ok (.ofOption answer) ∧
      Lists listing (fun path => Orphan r settings hideParents hideChildren path ∧
        ¬LinksTo r settings path path) answer := by
  intro r
  have hr : PageOrder.Ascends r.paths := Repository.ascends_ofPages pages
  let paths := unlinkedPages r settings hideParents hideChildren
  refine ⟨pageList (PageOrder.shown paths) listing, by simp only [placeholders, he, paths], ?_⟩
  exact lists_shown (hr.filter _) (fun _ => mem_unlinkedPages hr) listing

theorem a_child_without_links_to_it_is_listed :
    let tag := Leaf.listUnlinkedPages true false .standard
    ∃ answer, placeholders (.ofPages family) .standard noon (Tree.ofDocument (asking tag)) 0 =
        .ok (.ofOption answer) ∧
      Lists .standard (fun path => path = "/p/c") answer := by
  intro tag
  obtain ⟨answer, hanswer, hlists⟩ := orphans_without_links_to_themselves_are_listed family .standard
    noon (Tree.ofDocument (asking tag)) 0 rfl
  refine ⟨answer, hanswer, ?_⟩
  have hunlinked : unlinkedPages (.ofPages family) .standard true false = ["/p/c"] := by decide
  simpa only [← mem_unlinkedPages (Repository.ascends_ofPages family), hunlinked,
    List.mem_singleton] using hlists

/-- The only stored page links to itself. -/
def selfLinked : List (String × Document) :=
  [("/A", pageOf [pageLink "/A" "A"])]

/-- No other page links to the page, and it is not listed. -/
theorem a_page_that_links_to_itself_is_not_listed :
    let r := Repository.ofPages selfLinked
    let t := Tree.ofDocument (asking (.listUnlinkedPages false false .standard))
    Orphan r .standard false false "/A" ∧ placeholders r .standard noon t 0 = .ok .delete := by
  intro r t
  refine ⟨⟨by decide, ?_, by decide, nofun, nofun⟩, ?_⟩
  · rintro other hother ⟨target, hlink, -⟩
    have hpaths : r.paths = ["/A"] := by decide
    have hstored := Repository.HasLink.stored hlink
    rw [hpaths, List.mem_singleton] at hstored
    exact hother hstored
  · have hunlinked : unlinkedPages r .standard false false = [] := rfl
    have hshown : PageOrder.shown [] = [] := by simp [PageOrder.shown]
    calc placeholders r .standard noon t 0
        = .ok (.ofOption (pageList (PageOrder.shown (unlinkedPages r .standard false false))
            .standard)) := rfl
      _ = .ok (.ofOption (pageList [] .standard)) := by rw [hunlinked, hshown]
      _ = .ok .delete := rfl

/-! ## Pages in folders -/

/-- The folder that a tag names, or that of its page if it names none, as an absolute path. -/
def namedFolder? (t : Tree) (page : NodeId) (folder : Option String) : Option String :=
  t.absolutePath (folder.or ((t.pagePath page).map PagePath.folder)) (some page)

/-- Besides the pages in a folder those are listed whose folders have a longer name at its end. -/
theorem pages_in_folders_are_listed_with_those_that_overhang (pages : List (String × Document))
    (settings : Settings) (now : Moment) (t : Tree) (id : NodeId) {folder : Option String}
    (he : t.element id = .leaf (.listPages folder listing)) :
    let r := Repository.ofPages pages
    ∃ answer, placeholders r settings now t id = .ok (.ofOption answer) ∧
      (∀ page, t.contextPage id listing.global = some page →
        Lists listing (fun path => path ∈ r.paths ∧ ∀ named, namedFolder? t page folder = some named →
          LiesIn named path ∨ Overhangs named path) answer) ∧
      (t.contextPage id listing.global = none → answer = none) ∧
      ∀ named path, Overhangs named path → ¬LiesIn named path := by
  intro r
  have hr : PageOrder.Ascends r.paths := Repository.ascends_ofPages pages
  refine ⟨folderPages? r t id folder listing, by simp only [placeholders, he], ?_, ?_,
    fun _ _ => not_liesIn_of_overhangs⟩
  · intro page hpage
    unfold folderPages? folderPaths?
    rw [hpage]
    exact lists_shown (ascends_pagesBelow hr (namedFolder? t page folder)) (fun _ => mem_pagesBelow)
      listing
  · intro hpage
    unfold folderPages? folderPaths?
    rw [hpage]
    rfl

/-- Pages in two folders, of which the name of one starts with that of the other. -/
def neighbours : List (String × Document) :=
  [("/a/x", pageOf []), ("/ab/y", pageOf [])]

theorem a_folder_with_a_slash_has_its_page_listed :
    let tag := Leaf.listPages (some "/a/") .standard
    ∃ answer, placeholders (.ofPages neighbours) .standard noon (Tree.ofDocument (asking tag)) 0 =
        .ok (.ofOption answer) ∧
      Lists .standard (fun path => path = "/a/x") answer := by
  intro tag
  obtain ⟨answer, hanswer, hlists, -⟩ := pages_in_folders_are_listed_with_those_that_overhang
    neighbours .standard noon (Tree.ofDocument (asking tag)) 0 rfl
  refine ⟨answer, hanswer, ?_⟩
  have hbelow : pagesBelow (.ofPages neighbours)
      (namedFolder? (Tree.ofDocument (asking tag)) 1 (some "/a/")) = ["/a/x"] := by decide
  simpa only [← mem_pagesBelow, hbelow, List.mem_singleton] using hlists 1 rfl

/-- A page that lies in a neighbour of a folder is listed. -/
theorem a_page_outside_of_a_folder_is_listed :
    let r := Repository.ofPages [("/ab/y", pageOf [])]
    let t := Tree.ofDocument (asking (.listPages (some "/a") .standard))
    ¬LiesIn "/a" "/ab/y" ∧ placeholders r .standard noon t 0 =
      .ok (.put (group [wrapped (.listItem 1 false) (pageLink "/ab/y" "/ab/y")])) := by
  intro r t
  refine ⟨by decide, ?_⟩
  have hbelow : pagesBelow r (some "/a") = ["/ab/y"] := rfl
  have hshown : PageOrder.shown ["/ab/y"] = ["/ab/y"] := by simp [PageOrder.shown]
  calc placeholders r .standard noon t 0
      = .ok (.ofOption (pageList (PageOrder.shown (pagesBelow r (some "/a"))) .standard)) := rfl
    _ = .ok (.ofOption (pageList ["/ab/y"] .standard)) := by rw [hbelow, hshown]
    _ = _ := rfl

end WikiHtml.Substitution
