-- Repositories that were filled page by page. Every stored document has a page at its top, and that
-- has the path that the document is stored under. The paths ascend, so there is one page of each.
import Mathlib.Data.List.Induction
import WikiHtml.Proofs.PageOrder
import WikiHtml.Repository

namespace WikiHtml.Repository

/-- The repository that pages were stored in, one after another. -/
def ofPages (pages : List (String × Document)) : Repository :=
  pages.foldl (fun r page => r.insert page.1 page.2) .empty

/-- A document is a page of the path. -/
def IsPageOf (path : String) (d : Document) : Prop :=
  ∃ child span, d = .node (.wrap (.page (some path)) child) span

/-- Every page is stored under its own path. -/
def Keyed (r : Repository) : Prop :=
  ∀ page ∈ r.pages, IsPageOf page.1 page.2

theorem isPageOf_rooted (path : String) (d : Document) : IsPageOf path (rooted path d) := by
  unfold rooted
  split
  · split
    · rename_i h
      exact ⟨_, _, by rw [h]⟩
    · exact ⟨_, _, rfl⟩
  · exact ⟨_, _, rfl⟩

theorem mem_put {path : String} {d : Document} {pages : List (String × Document)}
    {page : String × Document} (h : page ∈ put path d pages) : page = (path, d) ∨ page ∈ pages := by
  induction pages with
  | nil => exact Or.inl (List.mem_singleton.mp h)
  | cons first rest ih =>
    obtain ⟨key, stored⟩ := first
    rw [put] at h
    split at h
    · exact (List.mem_cons.mp h).imp_right (List.mem_cons_of_mem _)
    · split at h
      · exact List.mem_cons.mp h
      · rcases List.mem_cons.mp h with rfl | h
        · exact Or.inr (by simp)
        · exact (ih h).imp_right (List.mem_cons_of_mem _)

theorem Keyed.insert {r : Repository} (h : r.Keyed) (path : String) (d : Document) :
    (r.insert path d).Keyed := by
  intro page hm
  rcases mem_put hm with rfl | hm
  · exact isPageOf_rooted path d
  · exact h page hm

theorem keyed_ofPages (pages : List (String × Document)) : (ofPages pages).Keyed := by
  have hall : ∀ r : Repository, r.Keyed →
      (pages.foldl (fun r page => r.insert page.1 page.2) r).Keyed := by
    induction pages with
    | nil => exact fun r h => h
    | cons page rest ih => exact fun r h => ih _ (h.insert page.1 page.2)
  exact hall .empty fun page h => by simp [empty] at h

/-- What is found under a path is a page of the path. -/
theorem Keyed.get? {r : Repository} (h : r.Keyed) {path : String} {d : Document}
    (hd : r.get? path = some d) : path ∈ r.paths ∧ IsPageOf path d := by
  obtain ⟨before, after, hpages, _⟩ := List.lookup_eq_some_iff.mp hd
  have hm : (path, d) ∈ r.pages := by simp [hpages]
  exact ⟨List.mem_map.mpr ⟨_, hm, rfl⟩, h _ hm⟩

/-! ## The paths of stored pages -/

theorem map_put (path : String) (d : Document) (pages : List (String × Document)) :
    (put path d pages).map (·.1) = PageOrder.insert path (pages.map (·.1)) := by
  induction pages with
  | nil => rfl
  | cons first rest ih =>
    obtain ⟨key, stored⟩ := first
    rw [put, List.map_cons, PageOrder.insert]
    split
    · rename_i h
      rw [List.map_cons, h]
    · split
      · rfl
      · rw [List.map_cons, ih]

theorem ascends_ofPages (pages : List (String × Document)) :
    PageOrder.Ascends (ofPages pages).paths := by
  have hall : ∀ r : Repository, PageOrder.Ascends r.paths →
      PageOrder.Ascends (pages.foldl (fun r page => r.insert page.1 page.2) r).paths := by
    induction pages with
    | nil => exact fun r h => h
    | cons page rest ih =>
      intro r h
      refine ih (r.insert page.1 page.2) ?_
      have hpaths : (r.insert page.1 page.2).paths = PageOrder.insert page.1 r.paths :=
        map_put page.1 (rooted page.1 page.2) r.pages
      rw [hpaths]
      exact h.insert page.1
  exact hall .empty List.Pairwise.nil

/-- Where the paths ascend, what is found under a path is what is stored with it. -/
theorem get?_eq_some {r : Repository} (h : PageOrder.Ascends r.paths) {path : String}
    {d : Document} : r.get? path = some d ↔ (path, d) ∈ r.pages := by
  obtain ⟨pages⟩ := r
  simp only [get?]
  induction pages with
  | nil => simp
  | cons first rest ih =>
    obtain ⟨key, stored⟩ := first
    obtain ⟨hfirst, hrest⟩ := List.pairwise_cons.mp h
    rw [List.lookup_cons, List.mem_cons, Prod.mk.injEq]
    by_cases hkey : path = key
    · subst hkey
      have hapart : (path, d) ∉ rest := fun hm =>
        lt_irrefl path (hfirst path (List.mem_map_of_mem hm))
      simp [hapart, eq_comm]
    · rw [beq_false_of_ne hkey]
      simpa [hkey] using ih hrest

theorem exists?_iff {r : Repository} {path : String} : r.exists? path = true ↔ path ∈ r.paths := by
  simp [exists?, get?, paths, List.lookup_isSome_iff]

theorem mem_paths_of_get? {r : Repository} {path : String} {d : Document}
    (h : r.get? path = some d) : path ∈ r.paths :=
  exists?_iff.mp (by rw [exists?, h, Option.isSome_some])

/-! ## The page stored last -/

theorem lookup_put (path key : String) (d : Document) (pages : List (String × Document)) :
    (put path d pages).lookup key = if path = key then some d else pages.lookup key := by
  induction pages with
  | nil =>
    by_cases hkey : path = key
    · simp [put, hkey]
    · rw [put, List.lookup_cons, beq_false_of_ne (Ne.symm hkey), if_neg hkey]
  | cons first rest ih =>
    obtain ⟨name, stored⟩ := first
    rw [put]
    split
    · rename_i hname
      subst hname
      by_cases hkey : path = key
      · simp [hkey]
      · simp [List.lookup_cons, beq_false_of_ne (Ne.symm hkey), hkey]
    · rename_i hname
      split
      · by_cases hkey : path = key
        · simp [hkey]
        · rw [List.lookup_cons, beq_false_of_ne (Ne.symm hkey), if_neg hkey]
      · rw [List.lookup_cons, List.lookup_cons, ih]
        by_cases hkey : path = key
        · rw [← hkey, beq_false_of_ne hname, if_pos rfl]
        · rw [if_neg hkey, if_neg hkey]

/-- What was stored last under a path is found there. -/
theorem get?_ofPages (pages : List (String × Document)) (path : String) :
    (ofPages pages).get? path = (pages.reverse.lookup path).map (rooted path) := by
  induction pages using List.reverseRecOn with
  | nil => rfl
  | append_singleton pages last ih =>
    obtain ⟨key, d⟩ := last
    have hinsert : (ofPages (pages ++ [(key, d)])).get? path =
        (put key (rooted key d) (ofPages pages).pages).lookup path := by
      simp only [ofPages, List.foldl_append, List.foldl_cons, List.foldl_nil, insert, get?]
    rw [hinsert, lookup_put, List.reverse_append, List.reverse_singleton, List.singleton_append,
      List.lookup_cons]
    by_cases hkey : key = path
    · simp [hkey]
    · rw [if_neg hkey, beq_false_of_ne (Ne.symm hkey)]
      exact ih

end WikiHtml.Repository
