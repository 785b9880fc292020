-- Relative paths as segments on a stack. Those of the base folder and of the path are put on it one
-- after the other, and a segment `..` takes off the one before it. The search that cuts `..` out of
-- the text of a path comes to the same: what it cuts out first is the first such segment.
import WikiHtml.Proofs.PagePath

namespace WikiHtml.PagePath

/-! ## The stack -/

/-- The segment that stands for the folder above. -/
def upward : List Char := ['.', '.']

/-- The segments that are left of a path, where `kept` are those on the stack, last one first. `..`
takes off the one before it, or nothing at the root folder; at the end of the path it leaves a slash. -/
def resolved (kept : List (List Char)) : List (List Char) → List (List Char)
  | [] => kept.reverse
  | segment :: rest =>
    if segment ≠ upward then resolved (segment :: kept) rest
    else if rest ≠ [] then resolved kept.tail rest
    else ([] :: kept.tail).reverse

/-- The segments of a base folder: without those that are empty only because of the slash that it
starts with and the one that it ends with. -/
def baseSegments (base : String) : List (List Char) :=
  match folderNames base with
  | [] :: names => names
  | names => names

/-- The segments of a path below a base folder, from left to right. -/
def joinedSegments (path base : Option String) : List (List Char) :=
  baseSegments (base.getD "") ++ (path.getD "").toList.splitOn '/'

/-- The absolute path of segments. -/
def rooted (segments : List (List Char)) : List Char :=
  '/' :: ['/'].intercalate segments

section

variable {kept front back segments : List (List Char)}

theorem resolved_append (h : upward ∉ front) (kept back : List (List Char)) :
    resolved kept (front ++ back) = resolved (front.reverse ++ kept) back := by
  induction front generalizing kept with
  | nil => rfl
  | cons segment rest ih =>
    rw [List.mem_cons, not_or] at h
    rw [List.cons_append, resolved, if_pos (Ne.symm h.1), ih h.2, List.reverse_cons,
      List.append_assoc, List.singleton_append]

theorem resolved_of_not_mem (h : upward ∉ segments) : resolved [] segments = segments := by
  have happend := resolved_append h [] []
  rw [List.append_nil, List.append_nil] at happend
  rw [happend, resolved, List.reverse_reverse]

/-- The first segment `..` goes together with the segment before it. -/
theorem resolved_upward (h : upward ∉ front) (hback : back ≠ []) :
    resolved [] (front ++ upward :: back) = resolved [] (front.dropLast ++ back) := by
  have hfront : upward ∉ front.dropLast := fun hm => h (List.dropLast_subset front hm)
  rw [resolved_append h, resolved_append hfront, List.append_nil, List.append_nil, resolved,
    if_neg (not_not_intro rfl), if_pos hback, List.tail_reverse]

theorem resolved_upward_last (h : upward ∉ front) :
    resolved [] (front ++ [upward]) = resolved [] (front.dropLast ++ [[]]) := by
  have hfront : upward ∉ front.dropLast ++ [[]] := by
    rw [List.mem_append, List.mem_singleton]
    rintro (hm | hm)
    · exact h (List.dropLast_subset front hm)
    · cases hm
  rw [resolved_append h, resolved_of_not_mem hfront, List.append_nil, resolved,
    if_neg (not_not_intro rfl), if_neg (not_not_intro rfl), List.tail_reverse, List.reverse_cons,
    List.reverse_reverse]

theorem upward_not_mem_resolved (hkept : upward ∉ kept) : upward ∉ resolved kept segments := by
  induction segments generalizing kept with
  | nil => simpa [resolved] using hkept
  | cons segment rest ih =>
    have htail : upward ∉ kept.tail := fun hm => hkept (List.mem_of_mem_tail hm)
    unfold resolved
    split
    · rename_i hne
      exact ih (by simp [hkept, Ne.symm hne])
    · split
      · exact ih htail
      · simpa [upward] using htail

theorem resolved_ne_nil (h : segments ≠ []) : resolved kept segments ≠ [] := by
  induction segments generalizing kept with
  | nil => exact absurd rfl h
  | cons segment rest ih =>
    unfold resolved
    split
    · rcases rest with _ | ⟨next, rest⟩
      · simp [resolved]
      · exact ih (List.cons_ne_nil _ _)
    · split
      · rename_i hrest
        exact ih hrest
      · simp

/-- Each segment that is left was there, or is the empty one behind a last slash. -/
theorem mem_of_mem_resolved {s : List Char} (h : s ∈ resolved kept segments) :
    s ∈ kept ∨ s ∈ segments ∨ s = [] := by
  induction segments generalizing kept with
  | nil => exact Or.inl (by simpa [resolved] using h)
  | cons segment rest ih =>
    unfold resolved at h
    split at h
    · rcases ih h with hm | hm | hm
      · rcases List.mem_cons.mp hm with rfl | hm
        · exact Or.inr (Or.inl (by simp))
        · exact Or.inl hm
      · exact Or.inr (Or.inl (List.mem_cons_of_mem _ hm))
      · exact Or.inr (Or.inr hm)
    · split at h
      · rcases ih h with hm | hm | hm
        · exact Or.inl (List.mem_of_mem_tail hm)
        · exact Or.inr (Or.inl (List.mem_cons_of_mem _ hm))
        · exact Or.inr (Or.inr hm)
      · rw [List.mem_reverse, List.mem_cons] at h
        rcases h with hm | hm
        · exact Or.inr (Or.inr hm)
        · exact Or.inl (List.mem_of_mem_tail hm)

end

/-! ## Segments of a text -/

/-- The segments of an absolute path. -/
def segments (path : List Char) : List (List Char) :=
  match path with
  | [] => []
  | _ :: rest => rest.splitOn '/'

theorem segments_append (start rest : List Char) :
    segments (start ++ '/' :: rest) = segments start ++ rest.splitOn '/' := by
  cases start with
  | nil => rfl
  | cons c start => exact Text.splitOn_append_cons start rest

theorem rooted_segments {path : List Char} (h : path.head? = some '/') :
    rooted (segments path) = path := by
  cases path with
  | nil => cases h
  | cons c rest =>
    obtain rfl : c = '/' := Option.some.inj h
    exact congrArg ('/' :: ·) (List.intercalate_splitOn '/')

/-! ## Two dots in a text -/

theorem length_of_cutAtDots? {rest before after : List Char}
    (h : cutAtDots? rest = some (before, after)) {x y : List Char}
    (hrest : rest = x ++ '.' :: '.' :: y) : before.length ≤ x.length := by
  induction rest using cutAtDots?.induct generalizing before x with
  | case1 => cases h
  | case2 rest =>
    obtain ⟨rfl, _⟩ := Prod.mk.inj (Option.some.inj h)
    exact Nat.zero_le _
  | case3 c rest hdots ih =>
    rw [cutAtDots?, Option.map_eq_some_iff] at h
    · obtain ⟨⟨start, _⟩, hcut, hpair⟩ := h
      obtain ⟨rfl, rfl⟩ := Prod.mk.inj hpair
      rcases x with _ | ⟨d, x⟩
      · obtain ⟨rfl, rfl⟩ := List.cons.inj hrest
        exact (hdots y rfl rfl).elim
      · exact Nat.succ_le_succ (ih hcut (List.cons.inj hrest).2)
    · exact hdots

theorem no_dots_of_cutAtDots? {rest : List Char} (h : cutAtDots? rest = none) (x y : List Char) :
    rest ≠ x ++ '.' :: '.' :: y := by
  induction rest using cutAtDots?.induct generalizing x with
  | case1 => simp
  | case2 rest => cases h
  | case3 c rest hdots ih =>
    rw [cutAtDots?, Option.map_eq_none_iff] at h
    · intro hrest
      rcases x with _ | ⟨d, x⟩
      · obtain ⟨rfl, rfl⟩ := List.cons.inj hrest
        exact hdots y rfl rfl
      · exact ih h x (List.cons.inj hrest).2
    · exact hdots

theorem isSegment_iff {before after : List Char} :
    isSegment before after = true ↔ (before = [] ∨ ∃ start, before = start ++ ['/']) ∧
      (after = [] ∨ ∃ rest, after = '/' :: rest) := by
  simp [isSegment, List.getLast?_eq_some_iff, List.head?_eq_some_iff]

/-- A path with a segment `..` has the two dots in a place where they are a segment. -/
theorem exists_dots {path : List Char} (hslash : path.head? = some '/') (h : upward ∈ segments path) :
    ∃ before after, path = before ++ '.' :: '.' :: after ∧ isSegment before after = true := by
  obtain ⟨front, back, hsplit⟩ := List.append_of_mem h
  have hpath : path = rooted (front ++ upward :: back) := by rw [← hsplit, rooted_segments hslash]
  -- what stands behind the two dots
  obtain ⟨after, hafter, hend⟩ : ∃ after, ['/'].intercalate (upward :: back) = '.' :: '.' :: after ∧
      (after = [] ∨ ∃ rest, after = '/' :: rest) := by
    rcases back with _ | ⟨next, back⟩
    · exact ⟨[], by simp [upward], Or.inl rfl⟩
    · exact ⟨'/' :: ['/'].intercalate (next :: back),
        by rw [List.intercalate_cons_cons]; rfl, Or.inr ⟨_, rfl⟩⟩
  rcases front with _ | ⟨first, front⟩
  · exact ⟨['/'], after, by rw [hpath, List.nil_append, rooted, hafter]; rfl,
      isSegment_iff.mpr ⟨Or.inr ⟨[], rfl⟩, hend⟩⟩
  · refine ⟨rooted (first :: front) ++ ['/'], after, ?_,
      isSegment_iff.mpr ⟨Or.inr ⟨_, rfl⟩, hend⟩⟩
    rw [hpath, rooted, intercalate_append _ (List.cons_ne_nil _ _) (List.cons_ne_nil _ _), hafter,
      rooted]
    simp only [List.cons_append, List.append_assoc]

/-! ## Cutting a segment out -/

/-- An absolute path is what stands up to its last slash, and what follows. -/
theorem exists_last_slash {path : List Char} (h : path.head? = some '/') :
    ∃ start last, path = start ++ '/' :: last ∧ '/' ∉ last ∧
      (start = [] ∨ start.head? = some '/') := by
  have hmem : '/' ∈ path.reverse := List.mem_reverse.mpr (List.mem_of_head? h)
  obtain ⟨last, start, hsplit, hlast⟩ := List.eq_append_cons_of_mem hmem
  have hpath : path = start.reverse ++ '/' :: last.reverse := by
    rw [← List.reverse_reverse path, hsplit]
    simp
  refine ⟨start.reverse, last.reverse, hpath, by simpa using hlast, ?_⟩
  rcases hstart : start.reverse with _ | ⟨c, rest⟩
  · exact Or.inl rfl
  · rw [hpath, hstart] at h
    exact Or.inr h

theorem withoutLastSegment_append {start last : List Char} (h : '/' ∉ last) :
    withoutLastSegment (start ++ '/' :: last ++ ['/']) = start ++ ['/'] := by
  have hlast : ∀ c ∈ last.reverse, (c != '/') = true := by
    intro c hc
    rw [bne_iff_ne]
    rintro rfl
    exact h (List.mem_reverse.mp hc)
  rw [withoutLastSegment, if_neg (by simp; omega), List.dropLast_concat, List.reverse_append,
    List.reverse_cons, List.append_assoc, List.dropWhile_append_of_pos hlast]
  simp

/-- Where two dots of an absolute path are a segment, it is one of the path, and the path that is left
has the segments of what stands before it, but for the last one, and of what stands after it. -/
theorem segments_at_dots {before after : List Char}
    (h : (before ++ '.' :: '.' :: after).head? = some '/') (hsegment : isSegment before after = true) :
    ∃ front, before = front ++ ['/'] ∧
      segments (before ++ '.' :: '.' :: after) =
        segments front ++ upward :: (if after = [] then [] else after.tail.splitOn '/') ∧
      segments (withoutLastSegment before ++ after.tail) =
        (segments front).dropLast ++ after.tail.splitOn '/' ∧
      (withoutLastSegment before ++ after.tail).head? = some '/' := by
  obtain ⟨hbefore, hafter⟩ := isSegment_iff.mp hsegment
  obtain ⟨front, rfl⟩ : ∃ front, before = front ++ ['/'] := by
    refine hbefore.resolve_left ?_
    rintro rfl
    cases h
  refine ⟨front, rfl, ?_, ?_⟩
  · have hdots : ('.' :: '.' :: after).splitOn '/' =
        upward :: (if after = [] then [] else after.tail.splitOn '/') := by
      rcases hafter with rfl | ⟨rest, rfl⟩
      · rfl
      · exact Text.splitOn_append_cons upward rest
    rw [List.append_assoc, List.singleton_append, segments_append, hdots]
  · rcases front with _ | ⟨c, front⟩
    · exact ⟨rfl, rfl⟩
    · obtain ⟨start, last, hfront, hlast, hstart⟩ := @exists_last_slash (c :: front) h
      rw [hfront, withoutLastSegment_append hlast, List.append_assoc, List.singleton_append,
        segments_append, segments_append, Text.splitOn_of_not_mem hlast, List.dropLast_concat]
      refine ⟨rfl, ?_⟩
      rcases hstart with rfl | hstart
      · rfl
      · rw [List.head?_append, hstart]
        rfl

/-- No two dots that start in the first part are a segment of the path. -/
def NoneWithin (passed path : List Char) : Prop :=
  ∀ before after, path = before ++ '.' :: '.' :: after → isSegment before after = true →
    passed.length ≤ before.length

/-- The first two dots of the rest are the next ones that may be a segment. -/
theorem NoneWithin.cut {passed rest before after : List Char}
    (h : NoneWithin passed (passed ++ rest)) (hcut : cutAtDots? rest = some (before, after)) :
    NoneWithin (passed ++ before) (passed ++ rest) := by
  intro x y hsplit hsegment
  obtain ⟨start, rfl⟩ := List.prefix_of_prefix_length_le (List.prefix_append passed rest)
    ⟨_, hsplit.symm⟩ (h x y hsplit hsegment)
  rw [List.append_assoc, List.append_cancel_left_eq] at hsplit
  have := length_of_cutAtDots? hcut hsplit
  simp only [List.length_append]
  omega

/-- Two dots that are no segment are passed: none that overlap them are one either. -/
theorem NoneWithin.pass {before after : List Char}
    (h : NoneWithin before (before ++ '.' :: '.' :: after))
    (hsegment : ¬isSegment before after = true) :
    NoneWithin (before ++ ['.', '.']) (before ++ '.' :: '.' :: after) := by
  intro x y hsplit hx
  obtain ⟨start, rfl⟩ := List.prefix_of_prefix_length_le (List.prefix_append before _)
    ⟨_, hsplit.symm⟩ (h x y hsplit hx)
  rw [List.append_assoc, List.append_cancel_left_eq] at hsplit
  rcases start with _ | ⟨c, _ | ⟨d, start⟩⟩
  · -- the same two dots
    obtain ⟨-, hsame⟩ := List.cons.inj hsplit
    obtain ⟨-, rfl⟩ := List.cons.inj hsame
    rw [List.append_nil] at hx
    exact absurd hx hsegment
  · -- two dots that start with the second one: a dot stands before them
    obtain ⟨rfl, -⟩ := List.cons.inj hsplit
    rcases (isSegment_iff.mp hx).1 with hnil | ⟨start, hstart⟩
    · simp at hnil
    · cases (List.append_inj' hstart rfl).2
  · simp only [List.length_append, List.length_cons, List.length_nil]
    omega

/-- No segment `..` stands before the first place where two dots are a segment. -/
theorem NoneWithin.upward_not_mem {front after : List Char}
    (h : NoneWithin (front ++ ['/']) (front ++ ['/'] ++ '.' :: '.' :: after))
    (hslash : (front ++ ['/'] ++ '.' :: '.' :: after).head? = some '/') :
    upward ∉ segments front := by
  intro hm
  rcases front with _ | ⟨c, front⟩
  · cases hm
  · obtain ⟨x, y, hsplit, hsegment⟩ := @exists_dots (c :: front) hslash hm
    obtain ⟨hx, hy⟩ := isSegment_iff.mp hsegment
    have hlater : isSegment x (y ++ '/' :: '.' :: '.' :: after) = true := by
      refine isSegment_iff.mpr ⟨hx, Or.inr ?_⟩
      rcases hy with rfl | ⟨rest, rfl⟩
      · exact ⟨_, rfl⟩
      · exact ⟨_, rfl⟩
    have hlength := h x _ (by rw [hsplit]; simp) hlater
    rw [hsplit] at hlength
    simp only [List.length_append, List.length_cons, List.length_nil] at hlength
    omega

/-- Cutting the segments `..` out of the text of an absolute path comes to taking segments off the
stack. -/
theorem dropParents_eq {passed rest : List Char} (h : (passed ++ rest).head? = some '/')
    (hpassed : NoneWithin passed (passed ++ rest)) :
    dropParents passed rest = rooted (resolved [] (segments (passed ++ rest))) := by
  induction passed, rest using dropParents.induct with
  | case1 passed rest hcut =>
    have hnone : upward ∉ segments (passed ++ rest) := by
      intro hm
      obtain ⟨x, y, hsplit, hsegment⟩ := exists_dots h hm
      obtain ⟨start, rfl⟩ := List.prefix_of_prefix_length_le (List.prefix_append passed rest)
        ⟨_, hsplit.symm⟩ (hpassed x y hsplit hsegment)
      rw [List.append_assoc, List.append_cancel_left_eq] at hsplit
      exact no_dots_of_cutAtDots? hcut _ _ hsplit
    rw [dropParents, hcut, resolved_of_not_mem hnone, rooted_segments h]
  | case2 passed rest before after hcut hsegment ih =>
    have hpath : passed ++ rest = passed ++ before ++ '.' :: '.' :: after := by
      rw [cutAtDots?_eq_some hcut, List.append_assoc]
    have hfirst := hpassed.cut hcut
    rw [hpath] at h hfirst
    obtain ⟨front, hfront, hsegments, hnext, hslash⟩ := segments_at_dots h hsegment
    have hnone : upward ∉ segments front := by
      rw [hfront] at hfirst h
      exact hfirst.upward_not_mem h
    rw [dropParents, hcut]
    dsimp only
    rw [if_pos hsegment, ih hslash (fun _ _ _ _ => Nat.zero_le _), List.nil_append, hnext, hpath,
      hsegments]
    split
    · rename_i hafter
      rw [resolved_upward_last hnone, hafter]
      rfl
    · rw [resolved_upward hnone (List.splitOn_ne_nil _ _)]
  | case3 passed rest before after hcut hsegment ih =>
    have hpath : passed ++ rest = passed ++ before ++ '.' :: '.' :: after := by
      rw [cutAtDots?_eq_some hcut, List.append_assoc]
    have hsame : passed ++ before ++ ['.', '.'] ++ after = passed ++ rest := by
      rw [hpath, List.append_assoc]
      rfl
    have hfirst := hpassed.cut hcut
    rw [hpath] at hfirst
    have hpass := hfirst.pass hsegment
    rw [← hpath] at hpass
    rw [hsame] at ih
    rw [dropParents, hcut]
    dsimp only
    rw [if_neg hsegment, ih h hpass]

theorem resolveDots_eq {path : List Char} (h : path.head? = some '/') :
    resolveDots path = rooted (resolved [] (segments path)) := by
  unfold resolveDots
  split
  · rename_i hnone
    have hclean : upward ∉ segments path := fun hm => by
      obtain ⟨x, y, hsplit, _⟩ := exists_dots h hm
      exact no_dots_of_cutAtDots? (Option.isNone_iff_eq_none.mp hnone) x y hsplit
    rw [resolved_of_not_mem hclean, rooted_segments h]
  · exact dropParents_eq h fun _ _ _ _ => Nat.zero_le _

/-! ## Relative paths -/

theorem isAbsolute_iff {path : String} : isAbsolute path = true ↔ path.toList.head? = some '/' := by
  rw [isAbsolute, beq_iff_eq]

theorem joinChars_of_relative {second : List Char} (h : second.head? ≠ some '/') (first : List Char) :
    joinChars first second =
      first ++ (if first = [] ∨ first.getLast? = some '/' then [] else ['/']) ++ second := by
  rcases second with _ | ⟨c, rest⟩
  · simp [joinChars]
  · have hc : c ≠ '/' := fun heq => h (congrArg some heq)
    simp [joinChars, hc]

/-- The text of a base folder that says something ends with a slash once it is joined. -/
theorem base_append {base : String} (h : base.toList ≠ []) (second : List Char) :
    base.toList ++ (if base.toList = [] ∨ base.toList.getLast? = some '/' then [] else ['/']) ++
      second = bareChars base ++ '/' :: second := by
  by_cases hslash : EndsInSlash base
  · rw [if_pos (Or.inr (getLast?_iff_endsInSlash.mpr hslash)), List.append_nil]
    conv_lhs => rw [bareChars_of_endsInSlash hslash]
    rw [List.append_assoc, List.singleton_append]
  · rw [if_neg (not_or.mpr ⟨h, mt getLast?_iff_endsInSlash.mp hslash⟩),
      bareChars_of_not_endsInSlash hslash, List.append_assoc, List.singleton_append]

theorem splitOn_cons_slash (rest : List Char) : ('/' :: rest).splitOn '/' = [] :: rest.splitOn '/' :=
  Text.splitOn_append_cons [] rest

theorem splitOn_cons_of_ne {c : Char} (h : c ≠ '/') (rest : List Char) :
    ∃ first later, (c :: rest).splitOn '/' = (c :: first) :: later := by
  obtain ⟨first, later, hsplit⟩ := List.exists_cons_of_ne_nil (List.splitOn_ne_nil '/' rest)
  refine ⟨first, later, ?_⟩
  rw [List.splitOn_eq_splitOnP, List.splitOnP_cons_eq_if_modifyHead, ← List.splitOn_eq_splitOnP,
    if_neg (by simpa using h), hsplit]
  rfl

/-- The segments of a joined path, as soon as it starts with a slash. -/
theorem segments_joined {second : List Char} (h : second.head? ≠ some '/') (base : String) :
    segments (if (joinChars base.toList second).head? = some '/' then joinChars base.toList second
      else '/' :: joinChars base.toList second) = baseSegments base ++ second.splitOn '/' := by
  rw [joinChars_of_relative h]
  by_cases hnil : base.toList = []
  · have hbase : baseSegments base = [] := by
      rw [baseSegments, folderNames, bareChars, hnil]
      rfl
    rw [hbase, hnil, if_pos (Or.inl rfl), List.append_nil, List.nil_append, if_neg h]
    rfl
  · rw [base_append hnil, baseSegments, folderNames]
    rcases bareChars base with _ | ⟨c, rest⟩
    · rfl
    · rw [List.cons_append, List.head?_cons]
      by_cases hc : c = '/'
      · subst hc
        rw [if_pos rfl, splitOn_cons_slash]
        exact Text.splitOn_append_cons rest second
      · obtain ⟨first, later, hsplit⟩ := splitOn_cons_of_ne hc rest
        rw [if_neg fun heq => hc (Option.some.inj heq), ← List.cons_append]
        show (c :: rest ++ '/' :: second).splitOn '/' = _
        rw [Text.splitOn_append_cons, hsplit]

/-! ## What stays of a path -/

/-- What stands behind the last `..` stays at the end of the path, and before it stands a part of what
stood there. -/
theorem resolved_behind {front back : List (List Char)} (hback : back ≠ []) (h : upward ∉ back)
    (kept : List (List Char)) :
    ∃ left, left.Sublist (kept.reverse ++ front) ∧ resolved kept (front ++ back) = left ++ back := by
  induction front generalizing kept with
  | nil =>
    have happend := resolved_append h kept []
    rw [List.append_nil] at happend
    refine ⟨kept.reverse, by simp, ?_⟩
    rw [List.nil_append, happend, resolved, List.reverse_append, List.reverse_reverse]
  | cons segment rest ih =>
    have hmore : rest ++ back ≠ [] := List.append_ne_nil_of_right_ne_nil _ hback
    by_cases hup : segment = upward
    · obtain ⟨left, hsub, heq⟩ := ih kept.tail
      refine ⟨left, hsub.trans ?_, ?_⟩
      · rw [← List.dropLast_reverse]
        exact (List.dropLast_sublist _).append (List.sublist_cons_self _ _)
      · rw [List.cons_append, resolved, if_neg (not_not_intro hup), if_pos hmore, heq]
    · obtain ⟨left, hsub, heq⟩ := ih (segment :: kept)
      refine ⟨left, ?_, ?_⟩
      · simpa using hsub
      · rw [List.cons_append, resolved, if_pos hup, heq]

theorem slash_not_mem_joinedSegments {path base : Option String} {s : List Char}
    (h : s ∈ joinedSegments path base) : '/' ∉ s := by
  rcases List.mem_append.mp h with hs | hs
  · have hnames : s ∈ folderNames (base.getD "") := by
      unfold baseSegments at hs
      split at hs
      · rename_i hsplit
        rw [hsplit]
        exact List.mem_cons_of_mem _ hs
      · exact hs
    exact Text.not_mem_splitOn hnames
  · exact Text.not_mem_splitOn hs

theorem segments_rooted {all : List (List Char)} (hne : all ≠ []) (h : ∀ s ∈ all, '/' ∉ s) :
    segments (rooted all) = all :=
  List.splitOn_intercalate '/' h hne

/-- A relative path has the segments that are left on the stack after those of the base folder and its
own were put on it. So it starts with a slash and has no segment `..`; what stands behind the last
`..` is kept as it is, whatever dots the segments hold. -/
theorem relative_paths_resolve_like_a_stack (path base : Option String)
    (h : ∀ p ∈ path, isAbsolute p = false) :
    (makeAbsolute path base).toList = rooted (resolved [] (joinedSegments path base)) ∧
      isAbsolute (makeAbsolute path base) = true ∧
      upward ∉ segments (makeAbsolute path base).toList ∧
      ∀ front back, joinedSegments path base = front ++ back → back ≠ [] → upward ∉ back →
        ∃ left, left.Sublist front ∧ segments (makeAbsolute path base).toList = left ++ back := by
  have hrelative : (path.getD "").toList.head? ≠ some '/' := by
    rcases path with _ | p
    · simp
    · exact fun hp => Bool.false_ne_true ((h p rfl).symm.trans (isAbsolute_iff.mpr hp))
  have htext : (makeAbsolute path base).toList = rooted (resolved [] (joinedSegments path base)) := by
    have hfilter : path.filter isAbsolute = none :=
      Option.filter_eq_none_iff.mpr fun p hp => by simp [h p hp]
    rw [makeAbsolute, hfilter, String.toList_ofList, resolveDots_eq, segments_joined hrelative]
    · rfl
    · split
      · assumption
      · rfl
  have hsegments : segments (makeAbsolute path base).toList =
      resolved [] (joinedSegments path base) := by
    rw [htext]
    refine segments_rooted (resolved_ne_nil (List.append_ne_nil_of_right_ne_nil _
      (List.splitOn_ne_nil _ _))) fun s hs => ?_
    rcases mem_of_mem_resolved hs with hm | hm | rfl
    · cases hm
    · exact slash_not_mem_joinedSegments hm
    · exact List.not_mem_nil
  refine ⟨htext, isAbsolute_iff.mpr (by rw [htext]; rfl), ?_, fun front back hsplit hback hup => ?_⟩
  · rw [hsegments]
    exact upward_not_mem_resolved List.not_mem_nil
  · obtain ⟨left, hsub, heq⟩ := resolved_behind hback hup []
    exact ⟨left, by simpa using hsub, by rw [hsegments, hsplit, heq]⟩

theorem dots_in_names_stay_and_a_last_one_leaves_a_slash :
    (∀ p ∈ some "../x..y/.../..", isAbsolute p = false) ∧
      makeAbsolute (some "../x..y/.../..") (some "/a//b/") = "/a//x..y/" := by
  have hrelative : ∀ p ∈ some "../x..y/.../..", isAbsolute p = false := by decide
  obtain ⟨htext, _⟩ := relative_paths_resolve_like_a_stack (some "../x..y/.../..") (some "/a//b/")
    hrelative
  exact ⟨hrelative, String.toList_inj.mp (htext.trans (by decide))⟩

end WikiHtml.PagePath
