-- The links in the name of a page. A path is cut behind each of its slashes, and the links of the
-- pieces lead to what stands up to the end of each. That comes to going through the bytes of the path
-- from slash to slash: no place where it is cut then lies within a character. The folder of a page has
-- the links of its path without the last one, unless the path is one of a folder.
import WikiHtml.Proofs.PagePath.Segments
import WikiHtml.Proofs.Placeholder.PageLists
import WikiHtml.Substitution.Pass

namespace WikiHtml.Placeholder

open Document PagePath

/-! ## Steps -/

section

variable {name rest : List Char}

theorem ne_slash_of_not_mem (h : '/' ∉ name) : ∀ c ∈ name, (c != '/') = true := by
  intro c hc
  rw [bne_iff_ne]
  rintro rfl
  exact h hc

theorem steps_slash (rest : List Char) : steps ('/' :: rest) = ['/'] :: steps rest := by
  rw [steps]
  cases steps rest <;> rfl

theorem steps_cons {c : Char} (hc : c ≠ '/') {step : List Char} {later : List (List Char)}
    (h : steps rest = step :: later) : steps (c :: rest) = (c :: step) :: later := by
  rw [steps, h]
  exact if_neg hc

/-- The first step goes up to the first slash. -/
theorem steps_name (h : '/' ∉ name) (rest : List Char) :
    steps (name ++ '/' :: rest) = (name ++ ['/']) :: steps rest := by
  induction name with
  | nil => exact steps_slash rest
  | cons c name ih =>
    rw [List.mem_cons, not_or] at h
    exact steps_cons (Ne.symm h.1) (ih h.2)

theorem steps_of_not_mem (h : '/' ∉ name) (hne : name ≠ []) : steps name = [name] := by
  induction name with
  | nil => exact absurd rfl hne
  | cons c name ih =>
    rw [List.mem_cons, not_or] at h
    rcases name with _ | ⟨d, name⟩
    · rfl
    · exact steps_cons (Ne.symm h.1) (ih h.2 (List.cons_ne_nil d name))

/-- What holds of a path that is a name, and of a path if it holds behind its first slash, holds of
every path. -/
@[elab_as_elim]
theorem path_induct {P : List Char → Prop} (last : ∀ name, '/' ∉ name → P name)
    (folder : ∀ name rest, '/' ∉ name → P rest → P (name ++ '/' :: rest)) (path : List Char) :
    P path := by
  induction h : path.length using Nat.strongRecOn generalizing path with
  | ind n ih =>
    by_cases hslash : '/' ∈ path
    · obtain ⟨name, rest, rfl, hname⟩ := List.eq_append_cons_of_mem hslash
      refine folder name rest hname (ih rest.length ?_ rest rfl)
      rw [← h, List.length_append, List.length_cons]
      omega
    · exact last path hslash

theorem steps_append (front back : List Char) :
    steps (front ++ '/' :: back) = steps (front ++ ['/']) ++ steps back := by
  induction front using path_induct with
  | last name h => rw [steps_name h, steps_name h]; rfl
  | folder name rest h ih =>
    rw [List.append_assoc, List.append_assoc, List.cons_append, List.cons_append, steps_name h,
      steps_name h, ih, List.cons_append]

/-- A step into a folder: a name with the slash behind it. -/
def IntoFolder (step : String) : Prop :=
  ∃ name : String, step = name ++ "/" ∧ '/' ∉ name.toList

/-- Texts make up a path, and each of them but the last is a step into a folder. -/
structure Partitions (texts : List String) (path : String) : Prop where
  joined : String.join texts = path
  folders : ∀ step ∈ texts.dropLast, IntoFolder step
  last : ∀ step ∈ texts.getLast?, IntoFolder step ∨ step ≠ "" ∧ '/' ∉ step.toList

theorem intoFolder_ofList (h : '/' ∉ name) : IntoFolder (String.ofList (name ++ ['/'])) :=
  ⟨String.ofList name, String.ofList_append, by rwa [String.toList_ofList]⟩

theorem Partitions.cons {texts : List String} {step path : String} (h : Partitions texts path)
    (hstep : IntoFolder step) : Partitions (step :: texts) (step ++ path) := by
  rcases texts with _ | ⟨next, later⟩
  · obtain rfl : "" = path := h.joined
    exact ⟨by simp [String.join_cons], by simp, by simpa using Or.inl hstep⟩
  · refine ⟨by rw [String.join_cons, h.joined], ?_, ?_⟩
    · rw [List.dropLast_cons_of_ne_nil (List.cons_ne_nil next later)]
      exact List.forall_mem_cons.mpr ⟨hstep, h.folders⟩
    · rw [List.getLast?_cons_cons]
      exact h.last

/-- The texts of the steps of a path. -/
def stepTexts (path : String) : List String :=
  (steps path.toList).map String.ofList

theorem partitions_stepTexts (path : String) : Partitions (stepTexts path) path := by
  suffices h : ∀ chars, Partitions ((steps chars).map String.ofList) (String.ofList chars) by
    simpa [stepTexts] using h path.toList
  intro chars
  induction chars using path_induct with
  | last name h =>
    by_cases hne : name = []
    · subst hne
      exact ⟨rfl, by simp [steps], by simp [steps]⟩
    · rw [steps_of_not_mem h hne]
      refine ⟨by simp, by simp, ?_⟩
      simpa using Or.inr ⟨hne, h⟩
  | folder name rest h ih =>
    have hpath : String.ofList (name ++ '/' :: rest) =
        String.ofList (name ++ ['/']) ++ String.ofList rest := by simp [← String.ofList_append]
    rw [steps_name h, List.map_cons, hpath]
    exact ih.cons (intoFolder_ofList h)

/-! ## Links -/

/-- A link for each of some texts; it leads to what the texts up to it make up. -/
def stepLinks (texts : List String) : List Document :=
  texts.mapIdx fun k step => pageLink (String.join (texts.take (k + 1))) step

theorem stepLinks_dropLast (texts : List String) :
    stepLinks texts.dropLast = (stepLinks texts).dropLast := by
  refine List.ext_getElem (by simp [stepLinks]) fun k hk _ => ?_
  have hlt : k < texts.length - 1 := by simpa [stepLinks] using hk
  simp [stepLinks, List.dropLast_eq_take, List.take_take, Nat.min_eq_left hlt]

theorem join_map_ofList (pieces : List (List Char)) :
    String.join (pieces.map String.ofList) = String.ofList pieces.flatten := by
  rw [String.join_eq, List.map_map, List.map_congr_left (g := id) (by simp), List.map_id]

theorem map_stepTargets (passed : List Char) (pieces : List (List Char)) :
    (stepTargets passed pieces).map (fun (target, step) => pageLink target step) =
      pieces.mapIdx fun k step =>
        pageLink (String.ofList (passed ++ (pieces.take (k + 1)).flatten)) (String.ofList step) := by
  induction pieces generalizing passed with
  | nil => rfl
  | cons step later ih =>
    rw [stepTargets, List.map_cons, ih, List.mapIdx_cons]
    simp

theorem stepLinks_stepTexts (path : String) :
    stepLinks (stepTexts path) =
      (stepTargets [] (steps path.toList)).map fun (target, step) => pageLink target step := by
  rw [map_stepTargets, stepLinks, stepTexts]
  refine List.ext_getElem (by simp) fun k _ _ => ?_
  rw [List.getElem_mapIdx, List.getElem_mapIdx, List.getElem_map, ← List.map_take,
    join_map_ofList, List.nil_append]

/-! ## Going through the bytes -/

/-- The number of bytes of a text. -/
def byteCount : List Char → Nat
  | [] => 0
  | c :: rest => c.utf8Size + byteCount rest

/-- A text cut at a byte, unless the text ends before it or the byte lies within a character. -/
def cutAt? : Nat → List Char → Option (List Char × List Char)
  | offset, [] => if offset = 0 then some ([], []) else none
  | offset, c :: rest =>
    if offset = 0 then some ([], c :: rest)
    else if offset < c.utf8Size then none
    else (cutAt? (offset - c.utf8Size) rest).map fun (before, after) => (c :: before, after)

/-- How many bytes stand before the first slash, if there is one. -/
def slashAt? (text : List Char) : Option Nat :=
  if '/' ∈ text then some (byteCount (text.takeWhile (· != '/'))) else none

/-- The links of a path from a byte on, each but the first with a space before it. The path is cut
behind the next slash, or at its end. -/
def linksFrom? (path : List Char) (start : Nat) : Option (List Document) :=
  if _hstart : start < byteCount path then do
    let (_, rest) ← cutAt? start path
    let stop := (slashAt? rest).elim (byteCount path) (start + · + 1)
    let (target, _) ← cutAt? stop path
    let (_, step) ← cutAt? start target
    let space := if 0 < start then [text " "] else []
    let later ← linksFrom? path stop
    return space ++ pageLink (String.ofList target) (String.ofList step) :: later
  else some []
termination_by byteCount path - start
decreasing_by
  have hstop : start < (slashAt? rest).elim (byteCount path) (start + · + 1) := by
    cases slashAt? rest with
    | none => exact _hstart
    | some before => exact Nat.lt_succ_of_le (Nat.le_add_right start before)
  exact Nat.sub_lt_sub_left _hstart hstop

@[simp] theorem byteCount_append (front back : List Char) :
    byteCount (front ++ back) = byteCount front + byteCount back := by
  induction front with
  | nil => simp [byteCount]
  | cons c front ih => rw [List.cons_append, byteCount, byteCount, ih, Nat.add_assoc]

theorem byteCount_pos (h : rest ≠ []) : 0 < byteCount rest := by
  obtain ⟨c, later, rfl⟩ := List.exists_cons_of_ne_nil h
  have := c.utf8Size_pos
  rw [byteCount]
  omega

theorem cutAt?_append (front back : List Char) :
    cutAt? (byteCount front) (front ++ back) = some (front, back) := by
  induction front with
  | nil => cases back <;> rfl
  | cons c front ih =>
    have hpos := c.utf8Size_pos
    rw [List.cons_append, byteCount, cutAt?, if_neg (by omega), if_neg (by omega),
      Nat.add_sub_cancel_left, ih]
    rfl

theorem slashAt?_name (h : '/' ∉ name) (rest : List Char) :
    slashAt? (name ++ '/' :: rest) = some (byteCount name) := by
  rw [slashAt?, if_pos (by simp), List.takeWhile_append_of_pos (ne_slash_of_not_mem h)]
  simp

/-- No link comes from the end of a path on. -/
theorem linksFrom?_end (path : List Char) : linksFrom? path (byteCount path) = some [] := by
  rw [linksFrom?, dif_neg (Nat.lt_irrefl _)]

/-- The links from one step on are that of the step and those from its end on. -/
theorem linksFrom?_step (passed rest : List Char) {step : List Char} (hne : step ≠ [])
    (hstop : (slashAt? (step ++ rest)).elim (byteCount (passed ++ (step ++ rest)))
      (byteCount passed + · + 1) = byteCount (passed ++ step)) :
    linksFrom? (passed ++ (step ++ rest)) (byteCount passed) =
      (linksFrom? (passed ++ (step ++ rest)) (byteCount (passed ++ step))).map fun later =>
        (if passed = [] then [] else [text " "]) ++
          pageLink (String.ofList (passed ++ step)) (String.ofList step) :: later := by
  have hlt : byteCount passed < byteCount (passed ++ (step ++ rest)) := by
    have := byteCount_pos hne
    simp only [byteCount_append]
    omega
  have hcut : cutAt? (byteCount (passed ++ step)) (passed ++ (step ++ rest)) =
      some (passed ++ step, rest) := by rw [← List.append_assoc, cutAt?_append]
  have hspace : (0 < byteCount passed) = ¬passed = [] := by
    refine propext ⟨?_, byteCount_pos⟩
    rintro h rfl
    exact Nat.lt_irrefl 0 h
  rw [linksFrom?, dif_pos hlt, cutAt?_append]
  simp only [Option.bind_eq_bind, Option.bind_some, hstop, hcut, cutAt?_append, hspace, ite_not,
    Option.pure_def, Option.map_eq_bind]
  rfl

theorem intersperse_cons {α : Type} (separator x : α) (xs : List α) :
    (x :: xs).intersperse separator = x :: xs.flatMap fun y => [separator, y] := by
  induction xs generalizing x with
  | nil => rfl
  | cons y ys ih => rw [List.intersperse_cons_cons, ih]; rfl

/-- Going through the bytes of a path, whatever of it was passed before, one comes to each of the steps
that are left. -/
theorem linksFrom?_eq (passed rest : List Char) :
    let links := (stepTargets passed (steps rest)).map fun (target, step) => pageLink target step
    linksFrom? (passed ++ rest) (byteCount passed) =
      some (if passed = [] then links.intersperse (text " ")
        else links.flatMap fun link => [text " ", link]) := by
  dsimp only
  induction rest using path_induct generalizing passed with
  | last name h =>
    by_cases hne : name = []
    · subst hne
      rw [List.append_nil, linksFrom?_end]
      simp [steps, stepTargets]
    · have hturn := linksFrom?_step passed [] hne
        (by rw [slashAt?, List.append_nil, if_neg h]; rfl)
      rw [List.append_nil, linksFrom?_end] at hturn
      rw [hturn, steps_of_not_mem h hne]
      by_cases hp : passed = [] <;> simp [hp, stepTargets]
  | folder name rest h ih =>
    have hsplit : name ++ '/' :: rest = (name ++ ['/']) ++ rest := by simp
    have hne : name ++ ['/'] ≠ [] := by simp
    have hturn := linksFrom?_step passed rest hne (by
      have hslash : byteCount ['/'] = 1 := rfl
      rw [← hsplit, slashAt?_name h, Option.elim_some, byteCount_append, byteCount_append, hslash,
        Nat.add_assoc])
    have hlater := ih (passed ++ (name ++ ['/']))
    rw [List.append_assoc, if_neg (List.append_ne_nil_of_right_ne_nil passed hne)] at hlater
    rw [hsplit, hturn, hlater, ← hsplit, steps_name h, stepTargets, List.map_cons, Option.map_some]
    by_cases hp : passed = []
    · rw [if_pos hp, if_pos hp, intersperse_cons]
      rfl
    · rw [if_neg hp, if_neg hp, List.flatMap_cons]
      rfl

/-! ## The name of a page -/

/-- An absolute path is that of its folder, and a name that is empty if it is the path of a folder. -/
theorem exists_folder {path : String} (h : isAbsolute path = true) :
    ∃ start last, path.toList = start ++ '/' :: last ∧ '/' ∉ last ∧
      (folder path).toList = start ++ ['/'] ∧ (last = [] ↔ EndsInSlash path) := by
  obtain ⟨start, last, hpath, hlast, -⟩ := exists_last_slash (isAbsolute_iff.mp h)
  have hname := ne_slash_of_not_mem (mt List.mem_reverse.mp hlast)
  have hdrop : path.toList.reverse.dropWhile (· != '/') = '/' :: start.reverse := by
    rw [hpath, List.reverse_append, List.reverse_cons, List.append_assoc,
      List.dropWhile_append_of_pos hname]
    simp
  refine ⟨start, last, hpath, hlast, ?_, ?_⟩
  · rw [folder, hdrop]
    simp
  · rw [endsInSlash_iff, hpath]
    constructor
    · rintro rfl
      exact ⟨start, rfl⟩
    · rintro ⟨front, hfront⟩
      by_contra hne
      obtain ⟨name, c, rfl⟩ := (List.eq_nil_or_concat last).resolve_left hne
      rw [List.concat_eq_append, ← List.cons_append, ← List.append_assoc] at hfront
      obtain ⟨-, hc⟩ := List.append_inj' hfront rfl
      exact hlast (by simp [List.singleton_inj.mp hc])

theorem makeAbsolute_of_isAbsolute {path : String} (h : isAbsolute path = true) :
    makeAbsolute (some path) none = path := by
  rw [makeAbsolute, Option.filter_some, if_pos h]

theorem stepwiseLinks_eq (path : String) :
    let absolute := makeAbsolute (some path) none
    stepwiseLinks path = group ((stepLinks (stepTexts absolute)).intersperse (text " ")) ∧
      linksFrom? absolute.toList 0 =
        some ((stepLinks (stepTexts absolute)).intersperse (text " ")) := by
  dsimp only
  rw [stepLinks_stepTexts]
  exact ⟨rfl, linksFrom?_eq [] _⟩

/-- The folder of a page has the links of its path, but for the one of its name. -/
theorem stepLinks_folder {path : String} (h : isAbsolute path = true) :
    stepLinks (stepTexts (folder path)) =
      if isFolder path then stepLinks (stepTexts path) else (stepLinks (stepTexts path)).dropLast := by
  obtain ⟨start, last, hpath, hlast, hfolder, hend⟩ := exists_folder h
  have htexts : stepTexts path = stepTexts (folder path) ++ (steps last).map String.ofList := by
    rw [stepTexts, hpath, steps_append, List.map_append, stepTexts, hfolder]
  split
  · rename_i hf
    rw [htexts, hend.mpr (isFolder_iff.mp hf), steps, List.map_nil, List.append_nil]
  · rename_i hf
    have hne : last ≠ [] := fun hnil => hf (isFolder_iff.mpr (hend.mp hnil))
    rw [← stepLinks_dropLast, htexts, steps_of_not_mem hlast hne, List.map_singleton,
      List.dropLast_concat]

theorem isAbsolute_folder {path : String} (h : isAbsolute path = true) :
    isAbsolute (folder path) = true := by
  obtain ⟨start, last, hpath, -, hfolder, -⟩ := exists_folder h
  rw [isAbsolute_iff, hpath] at h
  rw [isAbsolute_iff, hfolder]
  cases start with
  | nil => rfl
  | cons c start => exact h

end

/-- Going through the bytes of a path, made absolute, ends without cutting a character, and gives a link
for each of the texts that make up the path, with a space between two neighbours. Each text but the
last ends with the only slash in it, and each link leads to what the texts up to it make up. The name
of a page with an absolute path has these links, and that of its folder the same without the last one,
unless the path is one of a folder. -/
theorem links_of_a_path_partition_it :
    (∀ path : String,
      let absolute := makeAbsolute (some path) none
      Partitions (stepTexts absolute) absolute ∧ ∃ members,
        linksFrom? absolute.toList 0 = some members ∧ stepwiseLinks path = group members ∧
        Separated (text " ") (stepLinks (stepTexts absolute)) members) ∧
    ∀ (t : Tree) (id page : NodeId) (global : Bool) (path : String),
      t.contextPage id global = some page → t.pagePath page = some path → isAbsolute path = true →
      Partitions (stepTexts path) path ∧ ∃ named inFolder,
        Substitution.nameOf? t id .path true global = some (group named) ∧
        Separated (text " ") (stepLinks (stepTexts path)) named ∧
        Substitution.nameOf? t id .folder true global = some (group inFolder) ∧
        Separated (text " ")
          (if isFolder path then stepLinks (stepTexts path) else (stepLinks (stepTexts path)).dropLast)
          inFolder := by
  refine ⟨fun path => ?_, fun t id page global path hpage hpath habsolute => ?_⟩
  · obtain ⟨hlinks, hfrom⟩ := stepwiseLinks_eq path
    exact ⟨partitions_stepTexts _, _, hfrom, hlinks, separated_intersperse _ _⟩
  · have hname : ∀ format, Substitution.nameOf? t id format true global =
        some (pageName path format true) := by
      intro format
      simp [Substitution.nameOf?, hpage, hpath]
    obtain ⟨hlinks, -⟩ := stepwiseLinks_eq path
    obtain ⟨hfolder, -⟩ := stepwiseLinks_eq (folder path)
    rw [makeAbsolute_of_isAbsolute habsolute] at hlinks
    rw [makeAbsolute_of_isAbsolute (isAbsolute_folder habsolute), stepLinks_folder habsolute] at hfolder
    exact ⟨partitions_stepTexts path, _, _, (hname .path).trans (congrArg some hlinks),
      separated_intersperse _ _, (hname .folder).trans (congrArg some hfolder),
      separated_intersperse _ _⟩

/-- A page with a tag for its name. -/
def namedPage : Tree :=
  ⟨#[⟨.leaf (.pageName .folder true false), none, some 1⟩,
    ⟨.wrap (.page (some "/ä//b")) (some 0), none, none⟩], some 1⟩

theorem a_folder_has_the_links_of_a_page_without_the_last_one :
    namedPage.contextPage 0 false = some 1 ∧ namedPage.pagePath 1 = some "/ä//b" ∧
      isAbsolute "/ä//b" = true ∧ ∃ named inFolder,
        Substitution.nameOf? namedPage 0 .path true false = some (group named) ∧
        Separated (text " ") [pageLink "/" "/", pageLink "/ä/" "ä/", pageLink "/ä//" "/",
          pageLink "/ä//b" "b"] named ∧
        Substitution.nameOf? namedPage 0 .folder true false = some (group inFolder) ∧
        Separated (text " ") [pageLink "/" "/", pageLink "/ä/" "ä/", pageLink "/ä//" "/"]
          inFolder := by
  have hpage : namedPage.contextPage 0 false = some 1 := by decide
  have hpath : namedPage.pagePath 1 = some "/ä//b" := by decide
  have habsolute : isAbsolute "/ä//b" = true := by decide
  have htexts : stepTexts "/ä//b" = ["/", "ä/", "/", "b"] := by decide
  obtain ⟨-, named, inFolder, hname, hlinks, hfolder, hothers⟩ :=
    links_of_a_path_partition_it.2 namedPage 0 1 false "/ä//b" hpage hpath habsolute
  rw [htexts] at hlinks hothers
  exact ⟨hpage, hpath, habsolute, named, inFolder, hname, hlinks, hfolder, hothers⟩

end WikiHtml.Placeholder
