-- How many lines are written. Where one writer is some lines ahead of another one with the same
-- open tags, it stays so whatever acts both perform.
import WikiHtml.Proofs.Html.Acts

namespace WikiHtml.Html.Writer

/-! ## Ahead -/

/-- The second writer is so many lines ahead of the first one, and goes on like it. -/
structure Ahead (n : Nat) (w w' : Writer) : Prop where
  stack : w'.stack = w.stack
  atNewLine : w'.atNewLine = w.atNewLine
  started : w.lines ≠ []
  length : w'.lines.length = w.lines.length + n

section

variable {w w' : Writer} {n : Nat}

theorem length_lines_text (h : w.lines ≠ []) (s : String) :
    (w.text s).lines.length = w.lines.length + if w.atNewLine then 1 else 0 := by
  obtain ⟨title, head, attributes, _ | ⟨line, earlier⟩, stack, _ | _⟩ := w
  · exact absurd rfl h
  · exact absurd rfl h
  · rfl
  · rfl

theorem Ahead.text (h : Ahead n w w') (s : String) : Ahead n (w.text s) (w'.text s) := by
  have hstarted : w'.lines ≠ [] := by
    have hlength := h.length
    have hpositive := List.length_pos_of_ne_nil h.started
    exact List.ne_nil_of_length_pos (by omega)
  refine ⟨?_, ?_, lines_text_ne_nil w s, ?_⟩
  · rw [stack_text, stack_text, h.stack]
  · rw [atNewLine_text, atNewLine_text]
  · rw [length_lines_text hstarted, length_lines_text h.started, h.length, h.atNewLine]
    omega

theorem Ahead.startLine (h : Ahead n w w') : Ahead n w.startLine w'.startLine :=
  ⟨h.stack, rfl, h.started, h.length⟩

/-- The open tags are changed in the same way. -/
theorem Ahead.restack (h : Ahead n w w') (f : List String → List String) :
    Ahead n { w with stack := f w.stack } { w' with stack := f w'.stack } :=
  ⟨congrArg f h.stack, h.atNewLine, h.started, h.length⟩

theorem Ahead.act (h : Ahead n w w') (act : Act String) : Ahead n (w.act act) (w'.act act) := by
  cases act with
  | text s => exact h.text s
  | startLine => exact h.startLine
  | openTag name attributes => exact (h.text (startTag name attributes)).restack (name :: ·)
  | closeTag =>
    -- Both close the same tag, or both have none to close.
    rcases hstack : w.stack with _ | ⟨name, outer⟩
    · simp only [Writer.act]
      rw [closeTag_of_nil hstack, closeTag_of_nil (h.stack.trans hstack)]
      exact h
    · simp only [Writer.act]
      rw [closeTag_of_cons hstack, closeTag_of_cons (h.stack.trans hstack)]
      exact (h.restack List.tail).text (endTag name)

theorem Ahead.perform (h : Ahead n w w') (acts : List (Act String)) :
    Ahead n (w.perform acts) (w'.perform acts) := by
  induction acts generalizing w w' with
  | nil => exact h
  | cons act rest ih => exact ih (h.act act)

theorem Ahead.closeAll (h : Ahead n w w') : Ahead n w.closeAll w'.closeAll := by
  have hdepth : w'.depth = w.depth := congrArg List.length h.stack
  unfold Writer.closeAll closeTo
  rw [hdepth, ← perform_closeTags, ← perform_closeTags]
  exact h.perform _

theorem Ahead.body_ne (h : Ahead n w w') (hn : n ≠ 0) : w'.body ≠ w.body := by
  intro hbody
  have hlength := congrArg List.length hbody
  rw [body, body, List.length_reverse, List.length_reverse, h.length] at hlength
  omega

theorem started_perform (h : w.lines ≠ []) (acts : List (Act String)) :
    (w.perform acts).lines ≠ [] := by
  have hself : Ahead 0 w w := ⟨rfl, rfl, h, rfl⟩
  exact (hself.perform acts).started

/-! ## Blocks and lists -/

theorem length_lines_closeTag {name : String} {outer : List String} (hstarted : w.lines ≠ [])
    (h : w.stack = name :: outer) :
    w.closeTag.lines.length = w.lines.length + if w.atNewLine then 1 else 0 := by
  rw [closeTag_of_cons h]
  exact length_lines_text (w := { w with stack := w.stack.tail }) hstarted (endTag name)

theorem lines_closeTag_ne_nil (hstarted : w.lines ≠ []) : w.closeTag.lines ≠ [] :=
  started_perform hstarted [.closeTag]

/-- An empty block is a line. -/
theorem ahead_block (hline : w.atNewLine = true) (hstarted : w.lines ≠ [])
    (name attributes : String) :
    Ahead 1 w (w.perform [.openTag name attributes, .closeTag, .startLine]) := by
  have hopened := stack_openTag w name attributes
  have hstart : (w.openTag name attributes).lines.length = w.lines.length + 1 := by
    have hlength := length_lines_text hstarted (startTag name attributes)
    rwa [hline, if_pos rfl] at hlength
  have hend : (w.openTag name attributes).closeTag.lines.length = w.lines.length + 1 := by
    have hsame : (w.openTag name attributes).atNewLine = false := atNewLine_text w _
    have hnonempty : (w.openTag name attributes).lines ≠ [] := lines_text_ne_nil w _
    rw [length_lines_closeTag hnonempty hopened, hstart, hsame]
    rfl
  refine ⟨?_, hline.symm, hstarted, hend⟩
  change (w.openTag name attributes).closeTag.stack = w.stack
  rw [stack_closeTag, hopened, List.tail_cons]

/-- Each list that is closed is a line. -/
theorem lines_closeLists (hline : w.atNewLine = true) (hstarted : w.lines ≠ [])
    (hn : n ≤ w.stack.length) :
    (w.closeLists n).lines.length = w.lines.length + n ∧ (w.closeLists n).lines ≠ [] ∧
      (w.closeLists n).atNewLine = true := by
  induction n generalizing w with
  | zero => exact ⟨rfl, hstarted, hline⟩
  | succ n ih =>
    obtain ⟨name, outer, hstack⟩ := List.exists_cons_of_length_pos (by omega : 0 < w.stack.length)
    have hclosed := length_lines_closeTag hstarted hstack
    rw [hline, if_pos rfl] at hclosed
    have hroom : n ≤ w.closeTag.stack.length := by
      rw [stack_closeTag, List.length_tail]
      omega
    obtain ⟨hlength, hrest⟩ :=
      ih (w := w.closeTag.startLine) rfl (lines_closeTag_ne_nil hstarted) hroom
    refine ⟨?_, hrest⟩
    rw [closeLists, hlength]
    change w.closeTag.lines.length + n = _
    omega

/-- Each list that is opened is a line. -/
theorem lines_openLists (hline : w.atNewLine = true) (hstarted : w.lines ≠ []) (kind : ListKind)
    (n : Nat) :
    (w.openLists kind n).lines.length = w.lines.length + n ∧
      (w.openLists kind n).atNewLine = true := by
  induction n generalizing w with
  | zero => exact ⟨rfl, hline⟩
  | succ n ih =>
    have hopened : (w.openTag kind.tag "").lines.length = w.lines.length + 1 := by
      have hlength := length_lines_text hstarted (startTag kind.tag "")
      rwa [hline, if_pos rfl] at hlength
    obtain ⟨hlength, hrest⟩ :=
      ih (w := (w.openTag kind.tag "").startLine) rfl (lines_text_ne_nil w _)
    refine ⟨?_, hrest⟩
    rw [openLists, hlength]
    change (w.openTag kind.tag "").lines.length + n = _
    omega

/-- Lists that are closed and opened again are two lines for each. -/
theorem ahead_reopened {kind : ListKind} (hline : w.atNewLine = true) (hstarted : w.lines ≠ [])
    (hstack : w.stack = List.replicate n kind.tag) :
    Ahead (n + n) w ((w.closeLists n).openLists kind n) := by
  have hroom : n ≤ w.stack.length := by
    rw [hstack, List.length_replicate]
  obtain ⟨hclosed, hstarted', hline'⟩ := lines_closeLists hline hstarted hroom
  obtain ⟨hopened, hline''⟩ := lines_openLists hline' hstarted' kind n
  refine ⟨?_, hline''.trans hline.symm, hstarted, by omega⟩
  rw [stack_openLists, stack_closeLists, hstack, List.drop_replicate, Nat.sub_self,
    List.replicate_zero, List.append_nil]

end

end WikiHtml.Html.Writer
