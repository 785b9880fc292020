-- HTML taken apart into its tags. Other than a reader, a scanner refuses nothing: a tag goes from
-- any `<` to the next `>`, whatever stands between them.
import WikiHtml.Proofs.Html.Tags

namespace WikiHtml.Html

/-! ## Scanning -/

/-- What a scanner knows: the tags that it has found, and what it has read of the tag that it is in.
-/
structure Scanner where
  tags : List String
  unfinished : Option (List Char)

namespace Scanner

/-- The scanner after a character. -/
def step (s : Scanner) (c : Char) : Scanner :=
  match s.unfinished with
  | none => if c = '<' then { s with unfinished := some ['<'] } else s
  | some read =>
    if c = '>' then ⟨s.tags ++ [String.ofList (read ++ ['>'])], none⟩
    else { s with unfinished := some (read ++ [c]) }

/-- The scanner after a text. -/
def after (s : Scanner) (text : List Char) : Scanner :=
  text.foldl step s

theorem after_append (s : Scanner) (first second : List Char) :
    s.after (first ++ second) = (s.after first).after second :=
  List.foldl_append

/-- What is found in a text comes after what was found before, and does not depend on that. -/
theorem after_tags (text : List Char) (unfinished : Option (List Char)) :
    ∃ tags rest, ∀ found, Scanner.after ⟨found, unfinished⟩ text = ⟨found ++ tags, rest⟩ := by
  induction text generalizing unfinished with
  | nil => exact ⟨[], unfinished, fun found => by rw [List.append_nil]; rfl⟩
  | cons c text ih =>
    obtain ⟨new, next, hstep⟩ : ∃ new next, ∀ found : List String,
        Scanner.step ⟨found, unfinished⟩ c = ⟨found ++ new, next⟩ := by
      rcases unfinished with _ | read
      · by_cases hc : c = '<'
        · exact ⟨[], some ['<'], fun found => by simp [step, hc]⟩
        · exact ⟨[], none, fun found => by simp [step, hc]⟩
      · by_cases hc : c = '>'
        · exact ⟨[String.ofList (read ++ ['>'])], none, fun found => by simp [step, hc]⟩
        · exact ⟨[], some (read ++ [c]), fun found => by simp [step, hc]⟩
    obtain ⟨tags, rest, hrest⟩ := ih next
    refine ⟨new ++ tags, rest, fun found => ?_⟩
    rw [← List.append_assoc, ← hrest (found ++ new), ← hstep found]
    rfl

end Scanner

/-- The tags of HTML, each from its `<` to the next `>`. -/
def tagTexts (html : String) : List String :=
  (Scanner.after ⟨[], none⟩ html.toList).tags

/-! ## Texts that end outside of a tag -/

/-- The tags of a text that starts and ends outside of a tag. -/
def HasTags (text : List Char) (tags : List String) : Prop :=
  ∀ found, Scanner.after ⟨found, none⟩ text = ⟨found ++ tags, none⟩

/-- A text ends outside of a tag if it starts outside of one. -/
def Finished (text : String) : Prop :=
  ∃ tags, HasTags text.toList tags

section

variable {first second text : List Char} {tags tags' : List String}

theorem HasTags.append (h : HasTags first tags) (h' : HasTags second tags') :
    HasTags (first ++ second) (tags ++ tags') := by
  intro found
  rw [Scanner.after_append, h, h', List.append_assoc]

theorem HasTags.tagTexts {html : String} (h : HasTags html.toList tags) : tagTexts html = tags := by
  unfold Html.tagTexts
  rw [h]
  rfl

theorem hasTags_nil : HasTags [] [] := by
  intro found
  rw [List.append_nil]
  rfl

/-- A text in which no tag starts. -/
theorem hasTags_of_less_notMem (h : '<' ∉ text) : HasTags text [] := by
  induction text with
  | nil => exact hasTags_nil
  | cons c rest ih =>
    simp only [List.mem_cons, not_or] at h
    intro found
    have hstep : Scanner.step ⟨found, none⟩ c = ⟨found, none⟩ := if_neg (Ne.symm h.1)
    change (Scanner.step ⟨found, none⟩ c).after rest = _
    rw [hstep]
    exact ih h.2 found

theorem hasTags_unmarked (h : Unmarked text) : HasTags text [] :=
  hasTags_of_less_notMem h.1

/-- What is read of a tag up to its end. -/
theorem after_unfinished (h : '>' ∉ text) (found : List String) (read : List Char) :
    Scanner.after ⟨found, some read⟩ text = ⟨found, some (read ++ text)⟩ := by
  induction text generalizing read with
  | nil =>
    rw [List.append_nil]
    rfl
  | cons c rest ih =>
    simp only [List.mem_cons, not_or] at h
    have hstep : Scanner.step ⟨found, some read⟩ c = ⟨found, some (read ++ [c])⟩ :=
      if_neg (Ne.symm h.1)
    change (Scanner.step ⟨found, some read⟩ c).after rest = _
    rw [hstep, ih h.2, List.append_assoc, List.singleton_append]

theorem hasTags_tag (h : '>' ∉ text) :
    HasTags ('<' :: text ++ ['>']) [String.ofList ('<' :: text ++ ['>'])] := by
  intro found
  rw [Scanner.after_append]
  change Scanner.after (Scanner.after ⟨found, some ['<']⟩ text) ['>'] = _
  rw [after_unfinished h]
  rfl

end

/-- What ends in a `>` ends outside of a tag. -/
theorem finished_append_greater (text : String) : Finished (text ++ ">") := by
  obtain ⟨tags, rest, h⟩ := Scanner.after_tags text.toList none
  obtain ⟨tags', h'⟩ : ∃ tags', ∀ found,
      Scanner.step ⟨found, rest⟩ '>' = ⟨found ++ tags', none⟩ := by
    rcases rest with _ | read
    · exact ⟨[], fun found => by rw [List.append_nil]; rfl⟩
    · exact ⟨[String.ofList (read ++ ['>'])], fun found => rfl⟩
  refine ⟨tags ++ tags', fun found => ?_⟩
  rw [String.toList_append, Scanner.after_append, h, ← List.append_assoc]
  exact h' _

theorem finished_startTag (name attributes : String) : Finished (startTag name attributes) := by
  unfold startTag
  split <;> exact finished_append_greater _

theorem finished_endTag (name : String) : Finished (endTag name) :=
  finished_append_greater _

theorem finished_unmarked {text : String} (h : Unmarked text.toList) : Finished text :=
  ⟨[], hasTags_unmarked h⟩

theorem finished_escape (text : String) : Finished (Text.escape text) :=
  finished_unmarked (unmarked_escape text)

/-! ## Readers and scanners -/

/-- A scanner is in a tag where a reader is in one. -/
theorem unfinished_step {r r' : Reader} {s : Scanner} {c : Char} (h : r.step? c = some r')
    (hs : s.unfinished = none ↔ r.position = .text) :
    (s.step c).unfinished = none ↔ r'.position = .text := by
  have hfinish : ∀ {name}, r.finish? name = some r' → r'.position = .text := by
    intro name h
    unfold Reader.finish? at h
    split at h <;> split at h
    · cases h
      rfl
    · cases h
    · cases h
      rfl
    · split at h <;> cases h
      rfl
  obtain ⟨found, unfinished⟩ := s
  obtain ⟨tags, opened, position⟩ := r
  cases position with
  | text =>
    obtain rfl : unfinished = none := hs.mpr rfl
    simp only [Reader.step?] at h
    split at h
    · cases h
      simp [Scanner.step, *]
    · split at h <;> cases h
      simp [Scanner.step, *]
  | name read =>
    obtain ⟨text, rfl⟩ : ∃ text, unfinished = some text :=
      Option.ne_none_iff_exists'.mp fun hnone => by cases hs.mp hnone
    simp only [Reader.step?] at h
    split at h
    · cases h
    · split at h
      · simp [Scanner.step, *, hfinish h]
      · split at h <;> cases h <;> simp [Scanner.step, *]
  | attributes name quoted =>
    obtain ⟨text, rfl⟩ : ∃ text, unfinished = some text :=
      Option.ne_none_iff_exists'.mp fun hnone => by cases hs.mp hnone
    simp only [Reader.step?] at h
    split at h
    · cases h
    · split at h
      · cases h
        simp [Scanner.step, *]
      · split at h
        · split at h
          · cases h
          · simp [Scanner.step, *, hfinish h]
        · cases h
          simp [Scanner.step, *]

theorem unfinished_after {text : List Char} {r r' : Reader} {s : Scanner} (h : Reads text r r')
    (hs : s.unfinished = none ↔ r.position = .text) :
    (s.after text).unfinished = none ↔ r'.position = .text := by
  induction text generalizing r s with
  | nil =>
    cases h
    exact hs
  | cons c rest ih =>
    unfold Reads at h
    rw [List.foldlM_cons] at h
    rcases hstep : r.step? c with _ | next
    · rw [hstep] at h
      cases h
    · rw [hstep] at h
      exact ih h (unfinished_step hstep hs)

/-- What a reader reads from outside of a tag to outside of a tag. -/
theorem finished_of_sameTags {text other : String} (h : SameTags text.toList other.toList) :
    Finished text := by
  obtain ⟨tags', hreads, -⟩ := h [] []
  obtain ⟨tags, rest, hafter⟩ := Scanner.after_tags text.toList none
  have hrest : rest = none := by
    have hend := (unfinished_after (s := ⟨[], none⟩) hreads ⟨fun _ => rfl, fun _ => rfl⟩).mpr rfl
    rw [hafter] at hend
    exact hend
  exact ⟨tags, fun found => by rw [hafter, hrest]⟩

end WikiHtml.Html
