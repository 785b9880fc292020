-- The order of paths. A set of paths is kept ascending, so that each path stands in it once; where
-- paths are shown they are ordered by their lower case, and by themselves where that is the same.
import Mathlib.Data.List.Nodup
import Mathlib.Data.Prod.Lex
import Mathlib.Data.String.Basic
import Mathlib.Tactic.Tauto
import WikiHtml.PageOrder

namespace WikiHtml.PageOrder

/-! ## Sets of paths -/

/-- The paths ascend by code points, each of them once. -/
def Ascends (paths : List String) : Prop :=
  paths.Pairwise (· < ·)

theorem before_iff {a b : String} : before a b = true ↔ a < b := by
  rw [before, decide_eq_true_iff, String.lt_iff_toList_lt]

theorem mem_insert {path a : String} {paths : List String} :
    a ∈ insert path paths ↔ a = path ∨ a ∈ paths := by
  induction paths with
  | nil => simp [insert]
  | cons first rest ih =>
    unfold insert
    split
    · rename_i h
      simp [h]
    · split
      · simp
      · rw [List.mem_cons, ih, List.mem_cons]
        tauto

theorem Ascends.insert {paths : List String} (h : Ascends paths) (path : String) :
    Ascends (insert path paths) := by
  induction paths with
  | nil => exact List.pairwise_singleton _ _
  | cons first rest ih =>
    obtain ⟨hfirst, hrest⟩ := List.pairwise_cons.mp h
    unfold PageOrder.insert
    split
    · exact h
    · rename_i hne
      split
      · rename_i hbefore
        have hlt := before_iff.mp hbefore
        refine List.pairwise_cons.mpr ⟨fun a ha => ?_, h⟩
        rcases List.mem_cons.mp ha with rfl | ha
        · exact hlt
        · exact hlt.trans (hfirst a ha)
      · rename_i hafter
        refine List.pairwise_cons.mpr ⟨fun a ha => ?_, ih hrest⟩
        rcases mem_insert.mp ha with rfl | ha
        · exact lt_of_le_of_ne (le_of_not_gt fun hlt => hafter (before_iff.mpr hlt)) (Ne.symm hne)
        · exact hfirst a ha

theorem mem_ascending {a : String} {paths : List String} : a ∈ ascending paths ↔ a ∈ paths := by
  have hfold : ∀ sorted, a ∈ paths.foldl (fun sorted path => insert path sorted) sorted ↔
      a ∈ sorted ∨ a ∈ paths := by
    induction paths with
    | nil => simp
    | cons path rest ih =>
      intro sorted
      rw [List.foldl_cons, ih, mem_insert, List.mem_cons]
      tauto
  simpa [ascending] using hfold []

theorem ascends_ascending (paths : List String) : Ascends (ascending paths) := by
  have hfold : ∀ sorted, Ascends sorted →
      Ascends (paths.foldl (fun sorted path => insert path sorted) sorted) := by
    induction paths with
    | nil => exact fun sorted h => h
    | cons path rest ih => exact fun sorted h => ih _ (h.insert path)
  exact hfold [] List.Pairwise.nil

theorem Ascends.filter {paths : List String} (h : Ascends paths) (p : String → Bool) :
    Ascends (paths.filter p) :=
  List.Pairwise.filter p h

/-- Of two paths of a set the smaller one stands before the other. -/
theorem Ascends.pair_sublist {paths : List String} (h : Ascends paths) {a b : String}
    (ha : a ∈ paths) (hb : b ∈ paths) (hlt : a < b) : [a, b].Sublist paths := by
  induction paths with
  | nil => cases ha
  | cons first rest ih =>
    obtain ⟨hfirst, hrest⟩ := List.pairwise_cons.mp h
    rcases List.mem_cons.mp ha with rfl | ha'
    · have hb' : b ∈ rest := (List.mem_cons.mp hb).resolve_left hlt.ne'
      exact (List.singleton_sublist.mpr hb').cons_cons a
    · rcases List.mem_cons.mp hb with rfl | hb'
      · exact absurd (hfirst a ha') hlt.asymm
      · exact (ih hrest ha' hb').cons first

/-! ## Shown paths -/

/-- What a path is ordered by where it is shown. -/
def shownKey (path : String) : String ×ₗ String :=
  toLex (Unicode.lowercase path, path)

/-- The paths are ordered as they are shown, by their lower case and those that have the same by
code points. -/
def InShownOrder (paths : List String) : Prop :=
  paths.Pairwise fun a b => shownKey a < shownKey b

theorem shownKey_lt {a b : String} :
    shownKey a < shownKey b ↔ Unicode.lowercase a < Unicode.lowercase b ∨
      Unicode.lowercase a = Unicode.lowercase b ∧ a < b := by
  rw [shownKey, shownKey, Prod.Lex.toLex_lt_toLex]

theorem InShownOrder.nodup {paths : List String} (h : InShownOrder paths) : paths.Nodup := by
  refine List.Pairwise.imp (fun hlt => ?_) h
  rintro rfl
  exact lt_irrefl _ hlt

/-- Two members of a list without repetition stand in it in one order only. -/
theorem not_sublist_swap {α : Type} {l : List α} (h : l.Nodup) {a b : α}
    (hab : [a, b].Sublist l) : ¬[b, a].Sublist l := by
  induction l with
  | nil => cases hab
  | cons first rest ih =>
    obtain ⟨hfirst, hrest⟩ := List.nodup_cons.mp h
    intro hba
    cases hab with
    | cons _ hab =>
      cases hba with
      | cons _ hba => exact ih hrest hab hba
      | cons_cons _ _ => exact hfirst (hab.subset (by simp))
    | cons_cons _ hb =>
      cases hba with
      | cons _ hba => exact hfirst (hba.subset (by simp))
      | cons_cons _ _ => exact hfirst (hb.subset (by simp))

/-- A path with its lower case. -/
def keyed (path : String) : String × String :=
  (Unicode.lowercase path, path)

/-- Whether the lower case of a path does not come after that of another. -/
def keyLe (a b : String × String) : Bool :=
  !before b.1 a.1

theorem keyLe_iff {a b : String × String} : keyLe a b = true ↔ a.1 ≤ b.1 := by
  rw [keyLe, Bool.not_eq_true', Bool.eq_false_iff, ne_eq, before_iff, not_lt]

theorem keyLe_trans (a b c : String × String) (hab : keyLe a b = true) (hbc : keyLe b c = true) :
    keyLe a c = true :=
  keyLe_iff.mpr ((keyLe_iff.mp hab).trans (keyLe_iff.mp hbc))

theorem keyLe_total (a b : String × String) : (keyLe a b || keyLe b a) = true := by
  rw [Bool.or_eq_true, keyLe_iff, keyLe_iff]
  exact le_total a.1 b.1

theorem shown_eq (paths : List String) :
    shown paths = ((paths.map keyed).mergeSort keyLe).map (·.2) :=
  rfl

theorem perm_shown (paths : List String) : (shown paths).Perm paths := by
  have hperm := (List.mergeSort_perm (paths.map keyed) keyLe).map (·.2)
  have hpaths : (paths.map keyed).map (·.2) = paths := by
    rw [List.map_map]
    exact List.map_id paths
  rw [shown_eq]
  rwa [hpaths] at hperm

theorem mem_shown {a : String} {paths : List String} : a ∈ shown paths ↔ a ∈ paths :=
  (perm_shown paths).mem_iff

/-- Sorting by the lower case leaves paths that have the same in the order of the set. -/
theorem Ascends.shown {paths : List String} (h : Ascends paths) : InShownOrder (shown paths) := by
  have hnodup : ((paths.map keyed).mergeSort keyLe).Nodup := by
    have hpaths : (PageOrder.shown paths).Nodup :=
      (perm_shown paths).nodup_iff.mpr (List.Pairwise.imp (fun hlt => ne_of_lt hlt) h)
    exact List.Nodup.of_map _ (shown_eq paths ▸ hpaths)
  have hsorted := List.pairwise_mergeSort keyLe_trans keyLe_total (paths.map keyed)
  rw [InShownOrder, shown_eq, List.pairwise_map, List.pairwise_iff_forall_sublist]
  intro x y hxy
  have hmem : ∀ z ∈ [x, y], ∃ path ∈ paths, keyed path = z := fun z hz =>
    List.mem_map.mp ((List.mergeSort_perm _ _).mem_iff.mp (hxy.subset hz))
  obtain ⟨a, ha, rfl⟩ := hmem x (by simp)
  obtain ⟨b, hb, rfl⟩ := hmem y (by simp)
  have hle : (keyed a).1 ≤ (keyed b).1 := keyLe_iff.mp (hsorted.forall_sublist hxy)
  refine shownKey_lt.mpr ((lt_or_eq_of_le hle).imp_right fun heq => ⟨heq, ?_⟩)
  rcases lt_trichotomy a b with hlt | rfl | hgt
  · exact hlt
  · exact absurd rfl (List.pairwise_iff_forall_sublist.mp hnodup hxy)
  · -- the set has them the other way round, and the sort would have kept that
    have hkept := List.pair_sublist_mergeSort keyLe_trans keyLe_total
      (keyLe_iff.mpr (le_of_eq heq.symm)) ((h.pair_sublist hb ha hgt).map keyed)
    exact absurd hkept (not_sublist_swap hnodup hxy)

end WikiHtml.PageOrder
