-- Elements with the pages that they belong to, and documents that pages are put into. What stands in
-- a document in the end is what stands in it now, and what stands in the pages that are put in.
import WikiHtml.Proofs.Element.Kinds
import WikiHtml.Proofs.PageOrder
import WikiHtml.Repository

namespace WikiHtml

namespace Document

/-! ## Elements in their pages -/

/-- The path of the page that an element is. -/
def pagePath? {α : Type} : Element α → Option (Option String)
  | .wrap (.page path) _ => some path
  | _ => none

/-- The path of the page that an element asks for. -/
def asked? {α : Type} : Element α → Option String
  | .leaf (.includePage path) => some path
  | _ => none

/-- The path that a link to a page names. -/
def linkPath? {α : Type} : Element α → Option (Option String)
  | .wrap (.linkPage path _) _ => some path
  | _ => none

theorem pagePath?_bare {α : Type} (e : Element α) : pagePath? e.bare = pagePath? e := by
  rcases e with members | ⟨w, _ | child⟩ | ⟨params, rows⟩ | l
  · rfl
  · cases w <;> rfl
  · cases w <;> rfl
  · rfl
  · rfl

theorem asked?_bare {α : Type} (e : Element α) : asked? e.bare = asked? e := by
  rcases e with members | ⟨w, _ | child⟩ | ⟨params, rows⟩ | l
  · rfl
  · rfl
  · rfl
  · rfl
  · cases l <;> rfl

theorem linkPath?_bare {α : Type} (e : Element α) : linkPath? e.bare = linkPath? e := by
  rcases e with members | ⟨w, _ | child⟩ | ⟨params, rows⟩ | l
  · rfl
  · cases w <;> rfl
  · cases w <;> rfl
  · rfl
  · rfl

theorem contextOf_eq (outer : Context) (e : Element Document) :
    contextOf outer e = (pagePath? e).or outer := by
  rcases e with members | ⟨w, child⟩ | ⟨params, rows⟩ | l
  · rfl
  · cases w <;> rfl
  · rfl
  · rfl

/-- What an element adds to what stands in a document: itself with the page that it belongs to, but
nothing if it only groups others or asks for a page. -/
def ownStanding (outer : Context) (e : Element Empty) : List (Context × Element Empty) :=
  if e.isList || (asked? e).isSome then [] else [((pagePath? e).or outer, e)]

/-- The elements of a document, without what they hold, and each with the page that it belongs to.
Lists, which only group, and elements that ask for a page are left out. -/
def standing (outer : Context) (d : Document) : List (Context × Element Empty) :=
  d.search (fun outer d => (ownStanding outer d.element.bare, some (contextOf outer d.element)))
    outer

theorem standing_node (outer : Context) (d : Document) :
    standing outer d = ownStanding outer d.element.bare ++
      d.element.children.flatMap (standing (contextOf outer d.element)) := by
  cases d with
  | node e span =>
    unfold standing
    rw [search_node, Option.toList_some, List.flatMap_singleton]
    rfl

/-- What stands in a page belongs to it or to pages in it. -/
theorem standing_of_isPage {d : Document} {path : Option String}
    (h : pagePath? d.element = some path) (outer outer' : Context) :
    standing outer d = standing outer' d := by
  rw [standing_node, standing_node, contextOf_eq, contextOf_eq, ownStanding, ownStanding,
    pagePath?_bare, h]
  rfl

/-! ## Targets of links -/

/-- Where a link to a page leads from the page that it belongs to. -/
def linkTarget? {α : Type} (context : Context) (e : Element α) : Option String :=
  (linkPath? e).bind fun path => absolutePath path context

theorem linkPaths_eq (d : Document) :
    d.linkPaths = PageOrder.ascending (d.search (fun outer d =>
      let context := contextOf outer d.element
      ((linkTarget? context d.element).toList, some context)) none) := by
  have hname : d.linkPaths = namedPaths linkPath? d := by
    refine congrArg (fun name => namedPaths name d) (funext fun e => ?_)
    rcases e with members | ⟨w, child⟩ | ⟨params, rows⟩ | l
    · rfl
    · cases w <;> rfl
    · rfl
    · rfl
  rw [hname]
  rfl

section Named

variable {name : Element Document → Option (Option String)}
  {bareName : Element Empty → Option (Option String)}

/-- An element names a path if what stands there of it does. -/
theorem mem_named_own (hbare : ∀ e : Element Document, bareName e.bare = name e)
    (hnone : ∀ e : Element Empty, (e.isList || (asked? e).isSome) = true → bareName e = none)
    {outer : Context} {e : Element Document} {target : String} :
    ((name e).bind fun path => absolutePath path (contextOf outer e)) = some target ↔
      ∃ x ∈ ownStanding outer e.bare,
        ((bareName x.2).bind fun path => absolutePath path x.1) = some target := by
  unfold ownStanding
  rw [← hbare, pagePath?_bare, ← contextOf_eq]
  split
  · rename_i h
    simp [hnone _ h]
  · simp

/-- The paths that are named in a document are those that the elements standing in it name, each for the
page that it belongs to. -/
theorem mem_namedPaths (hbare : ∀ e : Element Document, bareName e.bare = name e)
    (hnone : ∀ e : Element Empty, (e.isList || (asked? e).isSome) = true → bareName e = none)
    {d : Document} {target : String} :
    target ∈ namedPaths name d ↔ ∃ x ∈ standing none d,
      ((bareName x.2).bind fun path => absolutePath path x.1) = some target := by
  have hsearch : ∀ outer, target ∈ d.search (fun outer d =>
      let context := contextOf outer d.element
      (((name d.element).bind fun path => absolutePath path context).toList, some context)) outer ↔
        ∃ x ∈ standing outer d,
          ((bareName x.2).bind fun path => absolutePath path x.1) = some target := by
    induction d using induct with
    | node e span ih =>
      intro outer
      rw [search_node, standing_node]
      simp only [element, Option.toList_some, List.flatMap_singleton, List.mem_append,
        List.mem_flatMap, Option.mem_toList, mem_named_own hbare hnone, or_and_right, exists_or]
      refine or_congr_right ⟨?_, ?_⟩
      · rintro ⟨c, hc, h⟩
        obtain ⟨x, hx, htarget⟩ := (ih c hc _).mp h
        exact ⟨x, ⟨c, hc, hx⟩, htarget⟩
      · rintro ⟨x, ⟨c, hc, hx⟩, htarget⟩
        exact ⟨c, hc, (ih c hc _).mpr ⟨x, hx, htarget⟩⟩
  rw [namedPaths, PageOrder.mem_ascending]
  exact hsearch none

end Named

/-- The targets of links are those of the links that stand in a document. -/
theorem mem_linkPaths {d : Document} {target : String} :
    target ∈ d.linkPaths ↔ ∃ x ∈ standing none d, linkTarget? x.1 x.2 = some target := by
  rw [linkPaths_eq]
  refine mem_namedPaths linkPath?_bare fun e h => ?_
  rcases e with members | ⟨w, child⟩ | ⟨params, rows⟩ | l
  · rfl
  · simp [Element.isList, asked?] at h
  · rfl
  · rfl

/-! ## Parents -/

/-- The path that an element names as a parent of its page. -/
def parentPath? {α : Type} : Element α → Option (Option String)
  | .leaf (.parent (some path)) => some (some path)
  | _ => none

/-- The page that an element names as a parent of the page that it belongs to. -/
def parentTarget? {α : Type} (context : Context) (e : Element α) : Option String :=
  (parentPath? e).bind fun path => absolutePath path context

theorem parentPath?_bare {α : Type} (e : Element α) : parentPath? e.bare = parentPath? e := by
  rcases e with members | ⟨w, _ | child⟩ | ⟨params, rows⟩ | l
  · rfl
  · rfl
  · rfl
  · rfl
  · cases l with
    | parent path => cases path <;> rfl
    | _ => rfl

/-- The parents of a page are those that elements standing in it name. -/
theorem mem_parentPaths {d : Document} {target : String} :
    target ∈ d.parentPaths ↔ ∃ x ∈ standing none d, parentTarget? x.1 x.2 = some target := by
  have hname : d.parentPaths = namedPaths parentPath? d := by
    refine congrArg (fun name => namedPaths name d) (funext fun e => ?_)
    rcases e with members | ⟨w, child⟩ | ⟨params, rows⟩ | l
    · rfl
    · rfl
    · rfl
    · cases l with
      | parent path => cases path <;> rfl
      | _ => rfl
  rw [hname]
  refine mem_namedPaths parentPath?_bare fun e h => ?_
  rcases e with members | ⟨w, child⟩ | ⟨params, rows⟩ | l
  · rfl
  · rfl
  · rfl
  · cases l <;> first | rfl | simp [Element.isList, asked?] at h

/-! ## Pages that are put in -/

/-- The paths of the pages around what an element holds, the innermost first. -/
def around {α : Type} (pages : List (Option String)) (e : Element α) : List (Option String) :=
  (pagePath? e).toList ++ pages

theorem head?_around (pages : List (Option String)) (e : Element Document) :
    (around pages e).head? = contextOf pages.head? e := by
  rw [contextOf_eq, around, List.head?_append]
  cases pagePath? e <;> rfl

/-- A document with the paths of the pages around it, the innermost first. -/
abbrev Placed := List (Option String) × Document

/-- The paths that are asked for in a document, each with the paths of the pages around it. -/
def inclusions (pages : List (Option String)) (d : Document) :
    List (List (Option String) × String) :=
  d.search (fun pages d =>
    ((asked? d.element).toList.map fun path => (pages, path), some (around pages d.element))) pages

theorem inclusions_node (pages : List (Option String)) (d : Document) :
    inclusions pages d = ((asked? d.element).toList.map fun path => (pages, path)) ++
      d.element.children.flatMap (inclusions (around pages d.element)) := by
  cases d with
  | node e span =>
    unfold inclusions
    rw [search_node, Option.toList_some, List.flatMap_singleton]
    rfl

/-- The stored page that comes where a path is asked for: its path is absolute for the page around,
and it is that of none of the pages around. -/
def Puts (r : Repository) (pages : List (Option String)) (path : String) (page : Document) : Prop :=
  ∃ absolute, absolutePath (some path) pages.head? = some absolute ∧ some absolute ∉ pages ∧
    r.get? absolute = some page

/-- A stored page comes into a document, within the pages around the place where it is asked for. -/
def PutIn (r : Repository) (outer inner : Placed) : Prop :=
  ∃ path, (inner.1, path) ∈ inclusions outer.1 outer.2 ∧ Puts r inner.1 path inner.2

/-- A stored page comes into a document at the top, or into a page that does. -/
def Includes (r : Repository) (main page : Document) : Prop :=
  ∃ pages, Relation.TransGen (PutIn r) ([], main) (pages, page)

/-- What stands in a document once all pages are put in: what stands there, or in a page that comes
into it or into such a page. -/
def Unfolded (r : Repository) (pages : List (Option String)) (d : Document)
    (x : Context × Element Empty) : Prop :=
  ∃ inner : Placed, Relation.ReflTransGen (PutIn r) (pages, d) inner ∧
    x ∈ standing inner.1.head? inner.2

section

variable {r : Repository} {pages : List (Option String)} {d : Document}
  {x : Context × Element Empty}

theorem unfolded_iff : Unfolded r pages d x ↔ x ∈ standing pages.head? d ∨
    ∃ inner, PutIn r (pages, d) inner ∧ Unfolded r inner.1 inner.2 x := by
  constructor
  · rintro ⟨inner, hreach, hx⟩
    rcases hreach.cases_head with rfl | ⟨next, hput, hrest⟩
    · exact Or.inl hx
    · exact Or.inr ⟨next, hput, inner, hrest, hx⟩
  · rintro (hx | ⟨next, hput, inner, hrest, hx⟩)
    · exact ⟨(pages, d), .refl, hx⟩
    · exact ⟨inner, .head hput hrest, hx⟩

/-- Where a page is asked for, there stands in the end what stands in that page. -/
theorem unfolded_asked {path : String} {span : Option Span} :
    Unfolded r pages (.node (.leaf (.includePage path)) span) x ↔
      ∃ page, Puts r pages path page ∧ Unfolded r pages page x := by
  have hinclusions : inclusions pages (.node (.leaf (.includePage path)) span) =
      [(pages, path)] := rfl
  rw [unfolded_iff]
  constructor
  · rintro (hx | ⟨inner, ⟨path', hmem, hputs⟩, hunfolded⟩)
    · simp [standing_node, element, Element.bare, Element.refill, ownStanding, asked?,
        Element.children] at hx
    · rw [hinclusions, List.mem_singleton, Prod.mk.injEq] at hmem
      obtain ⟨rfl, rfl⟩ := hmem
      exact ⟨inner.2, hputs, hunfolded⟩
  · rintro ⟨page, hputs, hunfolded⟩
    refine Or.inr ⟨(pages, page), ⟨path, ?_, hputs⟩, hunfolded⟩
    rw [hinclusions]
    exact List.mem_singleton.mpr rfl

/-- In any other document there stands in the end its own element, and what then stands in the
documents that it holds. -/
theorem unfolded_node (h : asked? d.element = none) :
    Unfolded r pages d x ↔ x ∈ ownStanding pages.head? d.element.bare ∨
      ∃ c ∈ d.element.children, Unfolded r (around pages d.element) c x := by
  have hput : ∀ inner, PutIn r (pages, d) inner ↔
      ∃ c ∈ d.element.children, PutIn r (around pages d.element, c) inner := by
    intro inner
    simp only [PutIn, inclusions_node pages d, h, Option.toList_none, List.map_nil,
      List.nil_append, List.mem_flatMap]
    constructor
    · rintro ⟨path, ⟨c, hc, hmem⟩, hputs⟩
      exact ⟨c, hc, path, hmem, hputs⟩
    · rintro ⟨c, hc, path, hmem, hputs⟩
      exact ⟨path, ⟨c, hc, hmem⟩, hputs⟩
  rw [unfolded_iff, standing_node, ← head?_around, List.mem_append, List.mem_flatMap, or_assoc]
  refine or_congr_right ⟨?_, ?_⟩
  · rintro (⟨c, hc, hx⟩ | ⟨inner, hinner, hunfolded⟩)
    · exact ⟨c, hc, unfolded_iff.mpr (Or.inl hx)⟩
    · obtain ⟨c, hc, hinner⟩ := (hput inner).mp hinner
      exact ⟨c, hc, unfolded_iff.mpr (Or.inr ⟨inner, hinner, hunfolded⟩)⟩
  · rintro ⟨c, hc, hunfolded⟩
    rcases unfolded_iff.mp hunfolded with hx | ⟨inner, hinner, hrest⟩
    · exact Or.inl ⟨c, hc, hx⟩
    · exact Or.inr ⟨inner, (hput inner).mpr ⟨c, hc, hinner⟩, hrest⟩

end

end Document

end WikiHtml
