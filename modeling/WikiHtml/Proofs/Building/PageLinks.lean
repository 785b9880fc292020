-- The links to pages that are built are those that are shown. In a line each link is added before the
-- separator that stands in front of it.
import WikiHtml.Building.PageLinks
import WikiHtml.Proofs.Building.Basic

namespace WikiHtml.Building

variable {t₀ : Tree}

theorem makes_stepwiseLinks (path : String) :
    Makes t₀ (stepwiseLinks path) (Placeholder.stepwiseLinks path) := by
  refine makes_group (makes_intersperse (makes_map ?_) (makes_text " "))
  rintro ⟨target, step⟩
  exact makes_pageLink target step

theorem makes_pageName (path : String) (format : NameFormat) (linked : Bool) :
    Makes t₀ (pageName path format linked) (Placeholder.pageName path format linked) := by
  unfold pageName Placeholder.pageName
  cases linked with
  | false => exact makes_text _
  | true =>
    cases format with
    | title => exact makes_pageLink path _
    | path => exact makes_stepwiseLinks _
    | folder => exact makes_stepwiseLinks _

/-! ## Lists of pages -/

theorem intersperse_cons {α : Type} (separator x : α) (rest : List α) :
    (x :: rest).intersperse separator = x :: rest.flatMap fun y => [separator, y] := by
  induction rest generalizing x with
  | nil => rfl
  | cons y rest ih =>
    rw [List.intersperse_cons_cons, ih, List.flatMap_cons]
    rfl

theorem builds_separated (separator : String) {links : List (Building NodeId)} {ds : List Document}
    (h : List.Forall₂ (Makes t₀) links ds) :
    Builds t₀ (fun ids => ids) (separated separator links)
      (ds.flatMap fun d => [.text separator, d]) := by
  induction h with
  | nil => exact builds_nothing rfl
  | @cons link d links ds hlink _ ih =>
    have hpair : Builds t₀ (fun ids => ids)
        (do let shown ← link; let between ← text separator; return [between, shown])
        [.text separator, d] :=
      hlink.crossed (makes_text separator) fun _ _ => rfl
    have hall : Builds t₀ (fun ids => ids)
        (do
          let pair ← (do let shown ← link; let between ← text separator; return [between, shown])
          let others ← separated separator links
          return pair ++ others)
        ([.text separator, d] ++ ds.flatMap fun d => [.text separator, d]) :=
      hpair.both ih fun _ _ => rfl
    simp only [bind_assoc, pure_bind] at hall
    exact hall

theorem builds_inLine (separator : Option String) {links : List (Building NodeId)}
    {ds : List Document} (h : List.Forall₂ (Makes t₀) links ds) :
    Builds t₀ (fun ids => ids) (inLine separator links)
      (match separator with
        | some separator => ds.intersperse (.text separator)
        | none => ds) := by
  cases h with
  | nil => cases separator <;> exact builds_nothing rfl
  | cons hfirst hrest =>
    cases separator with
    | none => exact hfirst.both (builds_all hrest) fun _ _ => rfl
    | some separator =>
      dsimp only
      rw [intersperse_cons]
      exact hfirst.both (builds_separated separator hrest) fun _ _ => rfl

/-- A list of pages is built if one is shown. -/
theorem makes_pageList (paths : List String) (listing : Listing) :
    Option.Rel (Makes t₀) (pageList paths listing) (Placeholder.pageList paths listing) := by
  have hlinks : List.Forall₂ (Makes t₀)
      (paths.map fun path => pageLink path (listing.format.apply path))
      (paths.map fun path => Document.pageLink path (listing.format.apply path)) :=
    makes_map fun path => makes_pageLink path _
  unfold pageList Placeholder.pageList
  split
  · cases listing.outputOnEmpty with
    | none => exact .none
    | some shown => exact .some (makes_text shown)
  · dsimp only
    split
    · have hline := (builds_inLine listing.separator hlinks).gather
      cases hseparator : listing.separator <;> rw [hseparator] at hline <;> exact .some hline
    · refine .some (makes_group ?_)
      rw [List.map_map, List.map_map]
      exact makes_map fun path => makes_wrapped _ (makes_pageLink path _)

end WikiHtml.Building
