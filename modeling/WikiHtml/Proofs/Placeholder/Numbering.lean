-- The numbers in a table of contents. Of the numbers that are carried along from heading to heading,
-- each says how many headings of its level came since the last one of a smaller level. So the number
-- of a heading is told by the levels of the headings up to it, and each number is greater than the one
-- before.
import Mathlib.Data.List.Lex
import WikiHtml.Placeholder.Contents
import WikiHtml.Proofs.Text.Pieces

namespace WikiHtml.Placeholder

open Document

/-! ## Numbers told by levels -/

/-- How many of the levels that were seen are a given one, since the last that is smaller. -/
def countSince (level : Nat) (seen : List Nat) : Nat :=
  (seen.reverse.takeWhile (level ≤ ·)).count level

/-- The counts for the first levels. -/
def counts (seen : List Nat) (depth : Nat) : List Nat :=
  (List.range' 1 depth).map (countSince · seen)

section

variable {level last : Nat} {seen : List Nat}

theorem countSince_concat_of_lt (h : level < last) :
    countSince level (seen ++ [last]) = countSince level seen := by
  have hle : level ≤ last := Nat.le_of_lt h
  simp [countSince, hle, Nat.ne_of_gt h]

theorem countSince_concat_self :
    countSince level (seen ++ [level]) = countSince level seen + 1 := by
  simp [countSince]

theorem countSince_concat_of_gt (h : last < level) : countSince level (seen ++ [last]) = 0 := by
  have hle : ¬ level ≤ last := Nat.not_le.mpr h
  simp [countSince, hle]

theorem length_counts (seen : List Nat) (depth : Nat) : (counts seen depth).length = depth := by
  simp [counts]

theorem getElem?_counts {depth i : Nat} (h : i < depth) :
    (counts seen depth)[i]? = some (countSince (i + 1) seen) := by
  simp [counts, h, Nat.add_comm]

theorem counts_add (seen : List Nat) (depth more : Nat) :
    counts seen (depth + more) =
      counts seen depth ++ (List.range' (depth + 1) more).map (countSince · seen) := by
  rw [counts, ← List.range'_append_1, List.map_append, Nat.add_comm 1 depth]
  rfl

theorem take_counts {depth n : Nat} (h : n ≤ depth) :
    (counts seen depth).take n = counts seen n := by
  obtain ⟨more, rfl⟩ := Nat.exists_eq_add_of_le h
  rw [counts_add, List.take_left' (length_counts seen n)]

/-- A heading leaves the counts for smaller levels as they are, and is one more of its own level. -/
theorem counts_concat (depth : Nat) (seen : List Nat) :
    counts (seen ++ [depth + 1]) (depth + 1) =
      counts seen depth ++ [countSince (depth + 1) seen + 1] := by
  have hsmaller : counts (seen ++ [depth + 1]) depth = counts seen depth := by
    refine List.map_congr_left fun level hlevel => countSince_concat_of_lt ?_
    have := List.mem_range'_1.mp hlevel
    omega
  rw [counts_add, hsmaller, List.range'_one, List.map_singleton, countSince_concat_self]

/-- What `advance` does to the counts is to count the heading. -/
theorem advance_counts (h : 1 ≤ level) (hdeepest : level ≤ deepestLevel) :
    advance (counts seen deepestLevel) level = counts (seen ++ [level]) deepestLevel := by
  obtain ⟨depth, rfl⟩ : ∃ n, level = n + 1 := ⟨level - 1, by omega⟩
  obtain ⟨more, hmore⟩ := Nat.exists_eq_add_of_le hdeepest
  -- The heading is of a smaller level than all the deeper ones, so they are counted from zero.
  have hagain : (List.range' (depth + 1 + 1) more).map (countSince · (seen ++ [depth + 1])) =
      List.replicate more 0 := by
    refine List.eq_replicate_iff.mpr ⟨by simp, fun n hn => ?_⟩
    obtain ⟨deeper, hdeeper, rfl⟩ := List.mem_map.mp hn
    have := List.mem_range'_1.mp hdeeper
    exact countSince_concat_of_gt (by omega)
  have hown : (counts seen deepestLevel)[depth]? = some (countSince (depth + 1) seen) :=
    getElem?_counts (by omega)
  have hrest : deepestLevel - (depth + 1) = more := by omega
  rw [advance, Nat.add_sub_cancel, take_counts (by omega), hown, Option.getD_some, hrest,
    ← counts_concat, ← hagain, ← counts_add, ← hmore]

/-- Whatever the depth was, the number of the next heading is greater. -/
theorem counts_lt_next (depth : Nat) (h : 1 ≤ level) :
    counts seen depth < counts (seen ++ [level]) level := by
  obtain ⟨smaller, rfl⟩ : ∃ n, level = n + 1 := ⟨level - 1, by omega⟩
  rw [counts_concat]
  -- For the smaller levels both are the same. Behind them the next one is greater, or goes on.
  rcases Nat.lt_or_ge smaller depth with hlt | hge
  · obtain ⟨more, rfl⟩ := Nat.exists_eq_add_of_le (show smaller + 1 ≤ depth from hlt)
    rw [counts_add, counts_add, List.append_assoc, List.range'_one]
    exact List.append_left_lt (List.Lex.rel (Nat.lt_succ_self _))
  · obtain ⟨more, rfl⟩ := Nat.exists_eq_add_of_le hge
    have hmore : ∀ n, [] < (List.range' (depth + 1) more).map (countSince · seen) ++ [n] := by
      intro n
      rcases (List.range' (depth + 1) more).map (countSince · seen) with _ | ⟨first, rest⟩ <;>
        exact List.Lex.nil
    rw [counts_add, List.append_assoc]
    simpa using List.append_left_lt (hmore _)

end

/-! ## Numbered headings -/

/-- A heading with its number in a table of contents. -/
structure Entry where
  heading : Heading
  number : List Nat

namespace Entry

def level (e : Entry) : Nat :=
  e.heading.level

/-- The number as it is written, with a point after each part. -/
def numberText (e : Entry) : String :=
  String.join (e.number.map fun n => toString n ++ ".")

/-- The line of an entry: a paragraph that is indented by the level of the heading, with a link to the
heading. The text of the link is the number, a space, and what the heading holds. -/
def line (e : Entry) : Document :=
  wrapped (.paragraph false e.level false)
    (wrapped (.linkPage none (some (Text.anchor e.heading.text)))
      (group (text (e.numberText ++ " ") :: e.heading.content.toList)))

end Entry

/-- The number of each heading has a part for each level up to its own: how many headings of that level
came up to it since the last one of a smaller level. -/
def Numbered (entries : List Entry) : Prop :=
  ∀ before e after, entries = before ++ e :: after →
    e.number.length = e.level ∧
      ∀ i < e.level, e.number[i]? = some (countSince (i + 1) ((before ++ [e]).map Entry.level))

/-- Headings with their numbers, after headings of some levels. -/
def entriesAfter (seen : List Nat) : List Heading → List Entry
  | [] => []
  | h :: rest =>
    ⟨h, counts (seen ++ [h.level]) h.level⟩ :: entriesAfter (seen ++ [h.level]) rest

theorem map_heading_entriesAfter (seen : List Nat) (hs : List Heading) :
    (entriesAfter seen hs).map Entry.heading = hs := by
  induction hs generalizing seen with
  | nil => rfl
  | cons h rest ih => rw [entriesAfter, List.map_cons, ih]

theorem isListed_iff {h : Heading} : h.isListed = true ↔ 1 ≤ h.level ∧ h.level ≤ deepestLevel := by
  rw [Heading.isListed, Bool.and_eq_true, decide_eq_true_eq, decide_eq_true_eq]

theorem line_counts {h : Heading} (hl : h.level ≤ deepestLevel) (seen : List Nat) :
    line h (counts seen deepestLevel) = Entry.line ⟨h, counts seen h.level⟩ := by
  rw [line, numbering, take_counts hl]
  rfl

/-- The lines of headings are those of their entries. -/
theorem lines_counts (seen : List Nat) (hs : List Heading) :
    lines (counts seen deepestLevel) hs =
      (entriesAfter seen (hs.filter Heading.isListed)).map Entry.line := by
  induction hs generalizing seen with
  | nil => rfl
  | cons h rest ih =>
    rw [lines]
    split
    · rename_i hl
      obtain ⟨hfirst, hdeepest⟩ := isListed_iff.mp hl
      dsimp only
      rw [List.filter_cons_of_pos hl, entriesAfter, List.map_cons, advance_counts hfirst hdeepest,
        line_counts hdeepest, ih]
    · rename_i hl
      rw [List.filter_cons_of_neg hl, ih]

theorem numbered_entriesAfter {seen : List Nat} {hs : List Heading} {before after : List Entry}
    {e : Entry} (h : entriesAfter seen hs = before ++ e :: after) :
    e.number = counts (seen ++ (before ++ [e]).map Entry.level) e.level := by
  induction hs generalizing seen before with
  | nil => cases before <;> cases h
  | cons first rest ih =>
    rw [entriesAfter] at h
    cases before with
    | nil =>
      obtain ⟨rfl, -⟩ := List.cons.inj h
      rfl
    | cons first' before =>
      obtain ⟨rfl, hrest⟩ := List.cons.inj h
      rw [ih hrest, List.append_assoc]
      rfl

theorem numbered (hs : List Heading) : Numbered (entriesAfter [] hs) := by
  intro before e after h
  rw [numbered_entriesAfter h]
  exact ⟨length_counts _ _, fun i hi => getElem?_counts hi⟩

/-- The numbers ascend. -/
theorem ascending_entriesAfter {hs : List Heading} (hlevels : ∀ h ∈ hs, 1 ≤ h.level)
    (seen : List Nat) : ((entriesAfter seen hs).map Entry.number).Pairwise (· < ·) := by
  have hchain : ∀ seen depth,
      (counts seen depth :: (entriesAfter seen hs).map Entry.number).IsChain (· < ·) := by
    induction hs with
    | nil => exact fun _ _ => .singleton _
    | cons h rest ih =>
      intro seen depth
      rw [entriesAfter, List.map_cons]
      exact .cons_cons (counts_lt_next depth (hlevels h (by simp)))
        (ih (fun g hg => hlevels g (by simp [hg])) _ _)
  exact (List.pairwise_cons.mp (hchain seen 0).pairwise).2

/-! ## Numbers as texts -/

/-- The parts of a number are read off its text. -/
theorem splitOn_numberText (e : Entry) :
    e.numberText.toList.splitOn '.' = e.number.map (fun n => (toString n).toList) ++ [[]] := by
  obtain ⟨h, number⟩ := e
  have hchars : (Entry.mk h number).numberText.toList =
      number.flatMap fun n => (toString n).toList ++ ['.'] := by
    rw [Entry.numberText, String.toList_join, List.flatMap_map]
    exact List.flatMap_congr fun n _ => String.toList_append
  rw [hchars]
  clear hchars
  induction number with
  | nil => simp
  | cons n rest ih =>
    rw [List.flatMap_cons, List.append_assoc, List.singleton_append, Text.splitOn_append_cons, ih,
      Text.splitOn_of_not_mem (Text.not_mem_toString (by decide) n)]
    rfl

theorem numberText_inj {e e' : Entry} (h : e.numberText = e'.numberText) : e.number = e'.number := by
  have hparts := splitOn_numberText e
  rw [h, splitOn_numberText e'] at hparts
  refine List.map_injective_iff.mpr (fun m n hmn => ?_) (List.append_cancel_right hparts).symm
  exact Nat.repr_inj.mp (String.toList_inj.mp hmn)

/-- No two entries have the same number, nor is it written in the same way. -/
theorem nodup_numberText {entries : List Entry}
    (h : (entries.map Entry.number).Pairwise (· < ·)) : (entries.map Entry.numberText).Nodup := by
  rw [List.pairwise_map] at h
  refine List.pairwise_map.mpr (h.imp fun {e e'} hlt heq => ?_)
  rw [numberText_inj heq] at hlt
  exact lt_irrefl _ hlt

end WikiHtml.Placeholder
