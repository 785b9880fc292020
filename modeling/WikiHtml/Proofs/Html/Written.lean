-- What a writer has written, read back. A reader of it holds the same tags open as the writer does,
-- whatever is written next. Two writers are compared all along, which may write different words.
import WikiHtml.Html.ListRun
import WikiHtml.Proofs.Html.Tags

namespace WikiHtml.Html

/-! ## Writers -/

namespace Writer

/-- The body as one text, its lines one below the other. -/
def written (w : Writer) : String :=
  "\n".intercalate w.body

/-- A line below others stands after a line break. -/
theorem intercalate_append_line (lines : List String) (line : String) :
    "\n".intercalate (lines ++ [line]) =
      (if lines = [] then "" else "\n".intercalate lines ++ "\n") ++ line := by
  by_cases h : lines = []
  · subst h
    rw [if_pos rfl, List.nil_append, String.intercalate_singleton, String.empty_append]
  · rw [if_neg h, String.intercalate_append_of_ne_nil h (List.cons_ne_nil line []),
      String.intercalate_singleton]

/-- What a new text starts with: nothing in a line that goes on, or else the line break and the blanks
of a new line. -/
def gap (w : Writer) : String :=
  if w.lines = [] then w.indentation
  else if w.atNewLine then "\n" ++ w.indentation
  else ""

theorem written_text_gap (w : Writer) (s : String) :
    (w.text s).written = w.written ++ (w.gap ++ s) := by
  obtain ⟨title, head, attributes, lines, stack, atNewLine⟩ := w
  rcases lines with _ | ⟨line, earlier⟩
  · rcases atNewLine with _ | _ <;>
      simp [text, written, body, gap, indentation, depth]
  · have hreverse : earlier.reverse ++ [line] ≠ [] := by simp
    rcases atNewLine with _ | _
    · simp only [text, written, body, gap, List.reverse_cons, intercalate_append_line, reduceCtorEq,
        Bool.false_eq_true, if_false, String.empty_append, String.append_assoc]
    · simp only [text, written, body, gap, List.reverse_cons, intercalate_append_line (_ ++ _),
        if_neg hreverse, reduceCtorEq, if_true, if_false, String.append_assoc]

theorem unmarked_gap (w : Writer) : Unmarked w.gap.toList := by
  have hindentation : Unmarked w.indentation.toList := by
    rw [indentation, String.toList_ofList]
    constructor <;> intro h <;> cases List.eq_of_mem_replicate h
  unfold gap
  split
  · exact hindentation
  · split
    · rw [String.toList_append]
      exact unmarked_append ⟨by decide, by decide⟩ hindentation
    · exact ⟨by decide, by decide⟩

/-- Before a new text there is at most a line break and blanks. -/
theorem written_text (w : Writer) (s : String) :
    ∃ gap, Unmarked gap ∧ (w.text s).written.toList = w.written.toList ++ gap ++ s.toList := by
  refine ⟨w.gap.toList, w.unmarked_gap, ?_⟩
  rw [written_text_gap, String.toList_append, String.toList_append, List.append_assoc]

/-- Two writers have written the same tags, and hold those open that a reader holds open. -/
structure Alike (w w' : Writer) : Prop where
  stack : w'.stack = w.stack
  paired : ∀ name ∈ w.stack, name ∈ pairedTags
  reads : ∃ tags, Reads w.written.toList .start ⟨tags, w.stack, .text⟩ ∧
    Reads w'.written.toList .start ⟨tags, w.stack, .text⟩

theorem alike_empty : Alike .empty .empty :=
  ⟨rfl, by simp [empty], [], rfl, rfl⟩

/-- What is read after a text that was written. -/
theorem reads_written {w : Writer} {tags opened : List String} {r : Reader} {s : String}
    (h : Reads w.written.toList .start ⟨tags, opened, .text⟩)
    (hs : Reads s.toList ⟨tags, opened, .text⟩ r) :
    Reads (w.text s).written.toList .start r := by
  obtain ⟨gap, hgap, htext⟩ := w.written_text s
  rw [htext]
  exact (h.append (reads_text hgap)).append hs

theorem stack_text (w : Writer) (s : String) : (w.text s).stack = w.stack := by
  unfold text
  split <;> rfl

theorem lines_text_ne_nil (w : Writer) (s : String) : (w.text s).lines ≠ [] := by
  unfold text
  split <;> simp

theorem atNewLine_text (w : Writer) (s : String) : (w.text s).atNewLine = false := by
  unfold text
  split
  · assumption
  · rfl

theorem stack_openTag (w : Writer) (name attributes : String) :
    (w.openTag name attributes).stack = name :: w.stack :=
  congrArg (name :: ·) (stack_text w _)

theorem closeTag_of_nil {w : Writer} (h : w.stack = []) : w.closeTag = w := by
  unfold closeTag
  rw [h]

theorem closeTag_of_cons {w : Writer} {name : String} {outer : List String}
    (h : w.stack = name :: outer) :
    w.closeTag = ({ w with stack := w.stack.tail }).text (endTag name) := by
  unfold closeTag
  rw [h]
  rfl

theorem stack_closeTag (w : Writer) : w.closeTag.stack = w.stack.tail := by
  unfold closeTag
  rcases hstack : w.stack with _ | ⟨name, outer⟩
  · exact hstack
  · exact stack_text _ _

theorem stack_closeTags (w : Writer) (n : Nat) : (w.closeTags n).stack = w.stack.drop n := by
  induction n generalizing w with
  | zero => rfl
  | succ n ih => rw [closeTags, ih, stack_closeTag, List.drop_tail]

/-- When all tags are closed, none is open. -/
theorem stack_closeAll (w : Writer) : w.closeAll.stack = [] := by
  unfold closeAll closeTo depth
  rw [stack_closeTags, Nat.sub_zero, List.drop_length]

section

variable {w w' : Writer} {s s' name attributes attributes' : String}

theorem Alike.text (h : Alike w w') (hs : SameTags s.toList s'.toList) :
    Alike (w.text s) (w'.text s') := by
  obtain ⟨tags, hw, hw'⟩ := h.reads
  obtain ⟨tags', hs, hs'⟩ := hs tags w.stack
  refine ⟨?_, ?_, tags', ?_, ?_⟩
  · rw [stack_text, stack_text, h.stack]
  · rw [stack_text]
    exact h.paired
  · rw [stack_text]
    exact reads_written hw hs
  · rw [stack_text]
    exact reads_written hw' hs'

theorem Alike.startLine (h : Alike w w') : Alike w.startLine w'.startLine :=
  ⟨h.stack, h.paired, h.reads⟩

theorem Alike.newLine (h : Alike w w') : Alike w.newLine w'.newLine :=
  (h.text (sameTags_voidTag (by decide) attributeText_empty attributeText_empty)).startLine

theorem Alike.openTag (h : Alike w w') (hname : name ∈ pairedTags)
    (ha : AttributeText attributes.toList) (ha' : AttributeText attributes'.toList) :
    Alike (w.openTag name attributes) (w'.openTag name attributes') := by
  obtain ⟨tags, hw, hw'⟩ := h.reads
  have hstack : (w.openTag name attributes).stack = name :: w.stack :=
    congrArg (name :: ·) (stack_text w _)
  refine ⟨?_, ?_, name :: tags, ?_, ?_⟩
  · rw [hstack, ← h.stack]
    exact congrArg (name :: ·) (stack_text w' _)
  · rw [hstack]
    simpa using ⟨hname, h.paired⟩
  · rw [hstack]
    exact reads_written hw (reads_pairedTag hname ha)
  · rw [hstack]
    exact reads_written hw' (reads_pairedTag hname ha')

/-- The tag that is closed is the one that a reader expects. -/
theorem Alike.closeTag (h : Alike w w') : Alike w.closeTag w'.closeTag := by
  obtain ⟨tags, hw, hw'⟩ := h.reads
  unfold Writer.closeTag
  rw [h.stack]
  rcases hstack : w.stack with _ | ⟨name, outer⟩
  · exact h
  · have hpaired : ∀ n ∈ name :: outer, n ∈ pairedTags := hstack ▸ h.paired
    have hname : name ∈ pairedTags := hpaired name List.mem_cons_self
    rw [hstack] at hw hw'
    refine ⟨?_, fun n hn => ?_, ("/" ++ name) :: tags, ?_, ?_⟩
    · rw [stack_text, stack_text]
    · rw [stack_text] at hn
      exact hpaired n (List.mem_cons_of_mem name hn)
    · rw [stack_text]
      exact reads_written (w := { w with stack := outer }) hw (reads_endTag hname)
    · rw [stack_text]
      exact reads_written (w := { w' with stack := outer }) hw' (reads_endTag hname)

theorem Alike.closeTags (h : Alike w w') (n : Nat) : Alike (w.closeTags n) (w'.closeTags n) := by
  induction n generalizing w w' with
  | zero => exact h
  | succ n ih => exact ih h.closeTag

theorem Alike.depth (h : Alike w w') : w'.depth = w.depth :=
  congrArg List.length h.stack

theorem Alike.closeTo (h : Alike w w') (depth : Nat) :
    Alike (w.closeTo depth) (w'.closeTo depth) := by
  unfold Writer.closeTo
  rw [h.depth]
  exact h.closeTags _

theorem Alike.openDiv (h : Alike w w') (cssClass cssClass' : String) :
    Alike (w.openDiv (some cssClass) none) (w'.openDiv (some cssClass') none) := by
  refine h.openTag (by decide) ?_ ?_ <;>
    simpa [String.intercalate_singleton] using attributeText_attr _ _

theorem Alike.openForm (h : Alike w w') (name action : Option String) (method : FormMethod) :
    Alike (w.openForm name action method) (w'.openForm name action method) :=
  h.openTag (by decide) (attributeText_attrs _) (attributeText_attrs _)

/-! ## Lists -/

theorem Alike.closeLists (h : Alike w w') (n : Nat) :
    Alike (w.closeLists n) (w'.closeLists n) := by
  induction n generalizing w w' with
  | zero => exact h
  | succ n ih => exact ih h.closeTag.startLine

theorem Alike.openLists (h : Alike w w') (kind : ListKind) (n : Nat) :
    Alike (w.openLists kind n) (w'.openLists kind n) := by
  have hkind : kind.tag ∈ pairedTags := by cases kind <;> decide
  induction n generalizing w w' with
  | zero => exact h
  | succ n ih => exact ih (h.openTag hkind attributeText_empty attributeText_empty).startLine

theorem Alike.nestLists (h : Alike w w') (level : Nat) (kind : ListKind) :
    Alike (w.nestLists level kind) (w'.nestLists level kind) := by
  unfold Writer.nestLists
  rw [h.stack]
  exact (h.closeLists _).openLists kind _

theorem Alike.finishLists (h : Alike w w') : Alike w.finishLists w'.finishLists := by
  unfold Writer.finishLists
  rw [h.stack]
  exact h.closeLists _

end

end Writer

end WikiHtml.Html
