-- Folders and what lies in them. A page lies in a folder if the names on the way to the folder come
-- first among those on the way to the folder of the page. The text of a folder without a slash at its
-- end is also what the paths of other folders start with, whose name there is longer.
import Mathlib.Data.List.Basic
import WikiHtml.PagePath
import WikiHtml.Proofs.Text.Pieces

namespace WikiHtml.PagePath

/-! ## Names of folders -/

/-- A path ends with a slash, and so is that of a folder. -/
def EndsInSlash (path : String) : Prop :=
  ∃ start : String, path = start ++ "/"

/-- The characters of a path without a slash at its end. -/
def bareChars (path : String) : List Char :=
  if path.toList.getLast? = some '/' then path.toList.dropLast else path.toList

/-- The names on the way to a folder, whether its path ends with a slash or not. -/
def folderNames (folder : String) : List (List Char) :=
  (bareChars folder).splitOn '/'

/-- A page lies in a folder, or in a folder below it. -/
def LiesIn (folder path : String) : Prop :=
  folderNames folder <+: folderNames (PagePath.folder path)

instance (folder path : String) : Decidable (LiesIn folder path) := by
  unfold LiesIn
  infer_instance

/-- The path of a folder ends within a name, and the folder of a page has a longer name there. -/
def Overhangs (folder path : String) : Prop :=
  ¬EndsInSlash folder ∧
    ∃ c rest, c ≠ '/' ∧ (PagePath.folder path).toList = folder.toList ++ c :: rest

theorem endsInSlash_iff {path : String} : EndsInSlash path ↔ ∃ start, path.toList = start ++ ['/'] := by
  constructor
  · rintro ⟨start, rfl⟩
    exact ⟨start.toList, String.toList_append⟩
  · rintro ⟨start, h⟩
    refine ⟨String.ofList start, String.toList_inj.mp ?_⟩
    rw [h, String.toList_append, String.toList_ofList]
    rfl

theorem getLast?_iff_endsInSlash {path : String} :
    path.toList.getLast? = some '/' ↔ EndsInSlash path := by
  rw [List.getLast?_eq_some_iff, endsInSlash_iff]

theorem bareChars_of_endsInSlash {path : String} (h : EndsInSlash path) :
    path.toList = bareChars path ++ ['/'] := by
  obtain ⟨start, hstart⟩ := endsInSlash_iff.mp h
  rw [bareChars, if_pos (getLast?_iff_endsInSlash.mpr h), hstart, List.dropLast_concat]

theorem bareChars_of_not_endsInSlash {path : String} (h : ¬EndsInSlash path) :
    bareChars path = path.toList := by
  rw [bareChars, if_neg (mt getLast?_iff_endsInSlash.mp h)]

theorem endsInSlash_folder (path : String) : EndsInSlash (folder path) := by
  unfold folder
  split
  · exact ⟨"", rfl⟩
  · rename_i upToSlash h
    rw [endsInSlash_iff, String.toList_ofList]
    have hhead := List.head?_dropWhile_not (· != '/') path.toList.reverse
    cases hchars : path.toList.reverse.dropWhile (· != '/') with
    | nil => exact absurd hchars h
    | cons c rest =>
      rw [hchars] at hhead
      obtain rfl : c = '/' := by simpa using hhead
      exact ⟨rest.reverse, List.reverse_cons⟩

/-! ## Names and characters -/

theorem intercalate_append {α : Type} (sep : List α) {xs ys : List (List α)} (hx : xs ≠ [])
    (hy : ys ≠ []) :
    sep.intercalate (xs ++ ys) = sep.intercalate xs ++ sep ++ sep.intercalate ys := by
  induction xs with
  | nil => exact absurd rfl hx
  | cons x rest ih =>
    cases rest with
    | nil =>
      obtain ⟨y, later, rfl⟩ := List.exists_cons_of_ne_nil hy
      simp
    | cons x' rest =>
      have htail := ih (List.cons_ne_nil x' rest)
      rw [List.cons_append, List.cons_append, List.intercalate_cons_cons, ← List.cons_append, htail,
        List.intercalate_cons_cons]
      simp only [List.append_assoc]

/-- Names come first among others exactly if the path that they make, with a slash at its end, comes
first in the other path. -/
theorem splitOn_prefix_iff {a b : List Char} :
    a.splitOn '/' <+: b.splitOn '/' ↔ a ++ ['/'] <+: b ++ ['/'] := by
  constructor
  · rintro ⟨later, h⟩
    have hb : b = ['/'].intercalate (a.splitOn '/' ++ later) := by
      rw [h, List.intercalate_splitOn]
    rcases later with _ | ⟨name, later⟩
    · rw [List.append_nil, List.intercalate_splitOn] at hb
      subst hb
      exact List.prefix_rfl
    · rw [intercalate_append _ (List.splitOn_ne_nil '/' a) (List.cons_ne_nil name later),
        List.intercalate_splitOn] at hb
      exact ⟨['/'].intercalate (name :: later) ++ ['/'], by rw [hb]; simp⟩
  · rintro ⟨rest, h⟩
    rcases List.eq_nil_or_concat rest with rfl | ⟨rest, c, rfl⟩
    · rw [List.append_nil, List.append_left_inj] at h
      subst h
      exact List.prefix_rfl
    · have hlists : (a ++ '/' :: rest) ++ [c] = b ++ ['/'] := by simpa using h
      obtain ⟨hb, _⟩ := List.append_inj' hlists rfl
      rw [← hb, Text.splitOn_append_cons]
      exact List.prefix_append _ _

theorem liesIn_iff {folder path : String} :
    LiesIn folder path ↔ bareChars folder ++ ['/'] <+: (PagePath.folder path).toList := by
  rw [bareChars_of_endsInSlash (endsInSlash_folder path)]
  exact splitOn_prefix_iff

theorem not_liesIn_of_overhangs {folder path : String} (h : Overhangs folder path) :
    ¬LiesIn folder path := by
  obtain ⟨hend, c, rest, hc, hpath⟩ := h
  rw [liesIn_iff, bareChars_of_not_endsInSlash hend, hpath, List.prefix_append_right_inj]
  rintro ⟨later, hlater⟩
  exact hc (List.cons.inj hlater).1.symm

/-- The path of a folder comes first in the folder of each page that lies in it, and besides only in
those where a longer name stands. -/
theorem prefix_folder_iff {folder path : String} :
    folder.toList <+: (PagePath.folder path).toList ↔ LiesIn folder path ∨ Overhangs folder path := by
  rw [liesIn_iff]
  by_cases hend : EndsInSlash folder
  · rw [← bareChars_of_endsInSlash hend]
    exact ⟨.inl, fun h => h.resolve_right fun hover => hover.1 hend⟩
  · rw [bareChars_of_not_endsInSlash hend]
    constructor
    · rintro ⟨rest, hrest⟩
      rcases rest with _ | ⟨c, rest⟩
      · -- the folder of a page ends with a slash
        rw [List.append_nil] at hrest
        exact absurd (String.toList_inj.mp hrest ▸ endsInSlash_folder path) hend
      · by_cases hc : c = '/'
        · exact .inl ⟨rest, by rw [← hrest, hc]; simp⟩
        · exact .inr ⟨hend, c, rest, hc, hrest.symm⟩
    · rintro (h | ⟨_, c, rest, _, hpath⟩)
      · exact (List.prefix_append _ _).trans h
      · rw [hpath]
        exact List.prefix_append _ _

end WikiHtml.PagePath
