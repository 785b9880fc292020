-- The parts of a document: what a search finds is in one of them. And documents that are put
-- together around others: of plain elements, which no pass has anything to do with.
import Mathlib.Data.List.Basic
import Mathlib.Logic.Relation
import WikiHtml.Document.Build
import WikiHtml.Proofs.Document.Induction

namespace WikiHtml

/-! ## Parts -/

namespace Document

/-- A document stands somewhere in another one, or is that itself. -/
def Part : Document → Document → Prop :=
  Relation.ReflTransGen fun d c => c ∈ d.element.children

/-- What holds of a document, and of all parts of what its top holds, holds of all its parts. -/
theorem forall_part {P : Document → Prop} {d : Document} (hd : P d)
    (hheld : ∀ x ∈ d.element.children, ∀ c, x.Part c → P c) : ∀ c, d.Part c → P c := by
  intro c hc
  rcases Relation.ReflTransGen.cases_head hc with rfl | ⟨x, hx, hc⟩
  · exact hd
  · exact hheld x hx c hc

section

variable {α σ : Type} {visit : σ → Document → List α × Option σ}

theorem searchCells_eq (visit : σ → Document → List α × Option σ) (s : σ)
    (cells : List (Cell Document)) :
    searchCells visit s cells = (Element.rowContents cells).flatMap (search visit s) := by
  induction cells with
  | nil => simp [searchCells, Element.rowContents]
  | cons cell rest ih =>
    obtain ⟨header, params, _ | d⟩ := cell <;>
      simp [searchCells, searchChild, ih, Element.rowContents]

theorem searchRows_eq (visit : σ → Document → List α × Option σ) (s : σ)
    (rows : List (Row Document)) :
    searchRows visit s rows = (Element.contents rows).flatMap (search visit s) := by
  induction rows with
  | nil => simp [searchRows, Element.contents]
  | cons row rest ih =>
    rw [searchRows, searchCells_eq, ih, Element.contents_cons, List.flatMap_append]

theorem searchMembers_eq (visit : σ → Document → List α × Option σ) (s : σ)
    (members : List Document) :
    searchMembers visit s members = members.flatMap (search visit s) := by
  induction members with
  | nil => simp [searchMembers]
  | cons d rest ih => rw [searchMembers, ih, List.flatMap_cons]

/-- A search goes on below in what the element holds, in its order, whatever the element is. -/
theorem search_node (visit : σ → Document → List α × Option σ) (s : σ) (e : Element Document)
    (span : Option Span) :
    search visit s (.node e span) = (visit s (.node e span)).1 ++
      ((visit s (.node e span)).2.toList.flatMap fun s => e.children.flatMap (search visit s)) := by
  rw [search]
  rcases visit s (.node e span) with ⟨found, _ | s⟩
  · simp
  · rcases e with members | ⟨w, _ | child⟩ | ⟨params, rows⟩ | l
    · simp [searchMembers_eq, Element.children]
    · simp [searchChild, Element.children]
    · simp [searchChild, Element.children]
    · simp [searchRows_eq, Element.children]
    · simp [Element.children]

/-- What a search finds it finds at a part of the document. -/
theorem mem_search {s : σ} {d : Document} {a : α} (h : a ∈ search visit s d) :
    ∃ c s', d.Part c ∧ a ∈ (visit s' c).1 := by
  induction d using induct generalizing s with
  | node e span ih =>
    rw [search_node, List.mem_append] at h
    rcases h with h | h
    · exact ⟨_, s, .refl, h⟩
    · obtain ⟨s', _, h⟩ := List.mem_flatMap.mp h
      obtain ⟨d, hd, h⟩ := List.mem_flatMap.mp h
      obtain ⟨c, s'', hc, ha⟩ := ih d hd h
      exact ⟨c, s'', .head hd hc, ha⟩

/-- All parts of a document, in their order. -/
def parts (d : Document) : List Document :=
  d.search (fun (_ : Unit) d => ([d], some ())) ()

theorem parts_node (e : Element Document) (span : Option Span) :
    (node e span).parts = node e span :: e.children.flatMap parts := by
  unfold parts
  rw [search_node, Option.toList_some, List.flatMap_singleton]
  rfl

theorem mem_parts {d c : Document} : c ∈ d.parts ↔ d.Part c := by
  induction d using induct with
  | node e span ih =>
    rw [parts_node, List.mem_cons, List.mem_flatMap]
    constructor
    · rintro (rfl | ⟨x, hx, hc⟩)
      · exact .refl
      · exact .head hx ((ih x hx).mp hc)
    · intro h
      rcases h.cases_head with rfl | ⟨x, hx, hc⟩
      · exact Or.inl rfl
      · exact Or.inr ⟨x, hx, (ih x hx).mpr hc⟩

/-- The ranges of the source text of all elements, in their order. -/
def spans (d : Document) : List Span :=
  d.parts.filterMap Document.span

/-- The parts of the first part of a kind stand together, and no part of the kind comes before it. -/
theorem exists_first_part {p : Document → Bool} {d : Document} (h : d.parts.any p = true) :
    ∃ before first after, d.parts = before ++ first.parts ++ after ∧ p first = true ∧
      ∀ c ∈ before, p c = false := by
  induction d using induct with
  | node e span ih =>
    rcases htop : p (node e span) with _ | _
    · rw [parts_node, List.any_cons, htop, Bool.false_or, List.any_flatMap] at h
      obtain ⟨held, hfind⟩ :=
        Option.isSome_iff_exists.mp (List.find?_isSome.mpr (List.any_eq_true.mp h))
      obtain ⟨hheld, earlier, later, hsplit, hearlier⟩ := List.find?_eq_some_iff_append.mp hfind
      obtain ⟨before, first, after, hparts, hfirst, hbefore⟩ := ih held (by simp [hsplit]) hheld
      refine ⟨node e span :: earlier.flatMap parts ++ before, first,
        after ++ later.flatMap parts, ?_, hfirst, fun c hc => ?_⟩
      · rw [parts_node, hsplit, List.flatMap_append, List.flatMap_cons, hparts]
        simp only [List.cons_append, List.append_assoc]
      · rw [List.cons_append, List.mem_cons, List.mem_append, List.mem_flatMap] at hc
        rcases hc with rfl | ⟨x, hx, hc⟩ | hc
        · exact htop
        · have hnone : x.parts.any p = false := by simpa using hearlier x hx
          exact Bool.eq_false_iff.mpr (List.any_eq_false.mp hnone c hc)
        · exact hbefore c hc
    · exact ⟨[], node e span, [], by simp, htop, nofun⟩

/-- What is picked from an element comes before what is picked from those below. -/
theorem all_node (pick : Element Document → Option α) (e : Element Document)
    (span : Option Span) :
    (node e span).all pick = (pick e).toList ++ e.children.flatMap (all pick) := by
  unfold all
  rw [search_node, Option.toList_some, List.flatMap_singleton]
  rfl

/-- Below an element that is picked from the search for the outermost ones ends. -/
theorem outermost_node (pick : Element Document → Option α) (e : Element Document)
    (span : Option Span) :
    (node e span).outermost pick =
      (pick e).elim (e.children.flatMap (outermost pick)) fun found => [found] := by
  unfold outermost
  rw [search_node]
  dsimp only [element]
  cases pick e with
  | none =>
    rw [Option.toList_some, List.flatMap_singleton]
    rfl
  | some found => rfl

/-- All elements are picked from in the order of the parts. -/
theorem all_eq_filterMap_parts (pick : Element Document → Option α) (d : Document) :
    d.all pick = d.parts.filterMap fun c => pick c.element := by
  induction d using induct with
  | node e span ih =>
    rw [all_node, parts_node, List.filterMap_cons, List.filterMap_flatMap, List.flatMap_congr ih]
    cases h : pick e <;> simp [element, h]

theorem mem_all {pick : Element Document → Option α} {d c : Document} {a : α}
    (hc : d.Part c) (ha : pick c.element = some a) : a ∈ d.all pick := by
  rw [all_eq_filterMap_parts]
  exact List.mem_filterMap.mpr ⟨c, mem_parts.mpr hc, ha⟩

theorem mem_outermost {pick : Element Document → Option α} {d : Document} {a : α}
    (h : a ∈ d.outermost pick) : ∃ c, d.Part c ∧ pick c.element = some a := by
  obtain ⟨c, s, hc, ha⟩ := mem_search h
  rcases hp : pick c.element with _ | found
  · simp [hp] at ha
  · simp only [hp, List.mem_singleton] at ha
    exact ⟨c, hc, ha ▸ hp⟩

end

end Document

/-! ## Plain elements -/

/-- An element that is no page, heading or tag and stands for nothing else. -/
def Element.isPlain {α : Type} : Element α → Bool
  | .list _ | .table _ _ => true
  | .wrap (.page _) _ | .wrap (.heading _) _ | .wrap (.xmlTag _ _ _) _ => false
  | .wrap _ _ => true
  | .leaf (.text _) | .leaf (.html _) | .leaf .verticalSpace | .leaf (.image _ _) => true
  | .leaf _ => false

theorem Element.isPlain_refill {α β : Type} (e : Element α) (values : List β) :
    (e.refill values).isPlain = e.isPlain := by
  rcases e with members | ⟨w, _ | child⟩ | ⟨params, rows⟩ | l
  · rfl
  · cases w <;> rfl
  · cases w <;> rfl
  · rfl
  · cases l <;> rfl

/-- An element that is a table. -/
def Element.isTable {α : Type} : Element α → Bool
  | .table _ _ => true
  | _ => false

theorem Element.isTable_refill {α β : Type} (e : Element α) (values : List β) :
    (e.refill values).isTable = e.isTable := by
  rcases e with members | ⟨w, _ | child⟩ | ⟨params, rows⟩ | l <;> rfl

namespace Document

/-- A document has a plain element at its top, which was not read from a source. -/
structure IsFill (d : Document) : Prop where
  plain : d.element.isPlain = true
  span : d.span = none

/-- A document is put together of plain elements around documents with `P`. These do not stand in
the cells of a table themselves. -/
inductive Around (P : Document → Prop) : Document → Prop
  | given {d : Document} (h : P d) : Around P d
  | fill {d : Document} (h : d.IsFill) (held : ∀ c ∈ d.element.children, Around P c)
      (cells : d.element.isTable = true → ∀ c ∈ d.element.children, c.IsFill) : Around P d

/-- Such a document with a plain element at its top. -/
structure Made (P : Document → Prop) (d : Document) : Prop extends IsFill d where
  held : ∀ c ∈ d.element.children, Around P c
  cells : d.element.isTable = true → ∀ c ∈ d.element.children, c.IsFill

variable {P : Document → Prop} {d : Document} {members : List Document}

theorem Made.around (h : Made P d) : Around P d :=
  .fill h.toIsFill h.held h.cells

theorem Made.mono {Q : Document → Prop} (h : Made P d) (hPQ : ∀ c, P c → Q c) : Made Q d := by
  have haround : ∀ c, Around P c → Around Q c := by
    intro c hc
    induction hc with
    | given h => exact .given (hPQ _ h)
    | fill hfill _ hcells ih => exact .fill hfill ih hcells
  exact ⟨h.toIsFill, fun c hc => haround c (h.held c hc), h.cells⟩

theorem made_ofLeaf {l : Leaf} (h : (Element.leaf l : Element Document).isPlain = true) :
    Made P (ofLeaf l) :=
  ⟨⟨h, rfl⟩, by simp [ofLeaf, element, Element.children], nofun⟩

theorem made_text (s : String) : Made P (text s) :=
  made_ofLeaf rfl

theorem made_group (h : ∀ d ∈ members, Around P d) : Made P (group members) :=
  ⟨⟨rfl, rfl⟩, h, nofun⟩

theorem made_wrapped {w : Wrapper}
    (h : (Element.wrap w none : Element Document).isPlain = true) (hd : Around P d) :
    Made P (wrapped w d) := by
  refine ⟨⟨?_, rfl⟩, fun c hc => ?_, nofun⟩
  · cases w <;> exact h
  · rw [List.mem_singleton.mp (show c ∈ [d] from hc)]
    exact hd

theorem made_paragraph (h : ∀ d ∈ members, Around P d) : Made P (paragraph members) :=
  made_wrapped rfl (made_group h).around

theorem made_textParagraph (s : String) : Made P (textParagraph s) :=
  made_paragraph (by simpa using (made_text s).around)

theorem made_pageLink (path shown : String) : Made P (pageLink path shown) :=
  made_wrapped rfl (made_text shown).around

theorem mem_intersperse {α : Type} {xs : List α} {sep x : α} (h : x ∈ xs.intersperse sep) :
    x ∈ xs ∨ x = sep := by
  induction xs with
  | nil => simp at h
  | cons a rest ih =>
    cases rest with
    | nil => exact Or.inl h
    | cons b rest =>
      rw [List.intersperse_cons_cons, List.mem_cons, List.mem_cons] at h
      rcases h with rfl | rfl | h
      · simp
      · exact Or.inr rfl
      · exact (ih h).imp_left (List.mem_cons_of_mem a)

theorem around_intersperse {sep : Document} (h : ∀ d ∈ members, Around P d)
    (hs : Around P sep) : ∀ d ∈ members.intersperse sep, Around P d := by
  intro d hd
  rcases mem_intersperse hd with hd | rfl
  · exact h d hd
  · exact hs

end Document

end WikiHtml
