-- What escaping leaves of a text: no mark that HTML reads, and no blank that was not there before.
import WikiHtml.Text.Escape

namespace WikiHtml.Text

/-- The characters that HTML reads as marks in text and in quoted attributes. -/
def isMark (c : Char) : Bool :=
  c == '<' || c == '>' || c == '"' || c == '\''

theorem isMark_of_all {text : List Char} (h : (text.all fun c => !isMark c) = true) :
    ∀ c ∈ text, isMark c = false := by
  simpa using h

theorem unmarked_of_all {text : List Char}
    (h : (text.all fun c => !isMark c && !isCodeBlank c) = true) :
    ∀ c ∈ text, isMark c = false ∧ isCodeBlank c = false := by
  simpa using h

/-- A character is kept, or written as a reference. -/
theorem escapeChar_cases (c : Char) :
    (escapeChar c = [c] ∧ isMark c = false) ∨
      ∀ d ∈ escapeChar c, isMark d = false ∧ isCodeBlank d = false := by
  unfold escapeChar
  split
  · exact .inr (unmarked_of_all (by decide))
  · exact .inr (unmarked_of_all (by decide))
  · exact .inr (unmarked_of_all (by decide))
  · exact .inr (unmarked_of_all (by decide))
  · exact .inr (unmarked_of_all (by decide))
  · rename_i _ hquote hapostrophe hless hgreater
    refine .inl ⟨rfl, ?_⟩
    simp only [isMark, Bool.or_eq_false_iff, beq_eq_false_iff_ne]
    exact ⟨⟨⟨hless, hgreater⟩, hquote⟩, hapostrophe⟩

theorem isMark_of_mem_escapeChar {c d : Char} (h : d ∈ escapeChar c) : isMark d = false := by
  rcases escapeChar_cases c with ⟨hkept, hc⟩ | hwritten
  · rw [hkept, List.mem_singleton] at h
    rw [h]
    exact hc
  · exact (hwritten d h).1

/-- Escaped text holds no mark. -/
theorem isMark_of_mem_escapeChars {text : List Char} {d : Char} (h : d ∈ escapeChars text) :
    isMark d = false := by
  unfold escapeChars at h
  obtain ⟨c, -, hd⟩ := List.mem_flatMap.mp h
  exact isMark_of_mem_escapeChar hd

/-- A blank in escaped text was there before. -/
theorem mem_of_mem_escapeChars {text : List Char} {d : Char} (h : d ∈ escapeChars text)
    (hd : isCodeBlank d = true) : d ∈ text := by
  unfold escapeChars at h
  obtain ⟨c, hc, hdc⟩ := List.mem_flatMap.mp h
  rcases escapeChar_cases c with ⟨hkept, -⟩ | hwritten
  · rw [hkept, List.mem_singleton] at hdc
    rw [hdc]
    exact hc
  · simp [(hwritten d hdc).2] at hd

theorem isMark_of_mem_keepBlank {c d : Char} (hc : isMark c = false) (h : d ∈ keepBlank c) :
    isMark d = false := by
  unfold keepBlank at h
  split at h
  · exact isMark_of_all (by decide) d h
  · rw [List.mem_singleton.mp h]
    exact hc

/-- Code that is escaped holds no mark. -/
theorem isMark_of_mem_escapeCodeChars {text : List Char} {d : Char}
    (h : d ∈ escapeCodeChars text) : isMark d = false := by
  unfold escapeCodeChars at h
  obtain ⟨c, hc, hd⟩ := List.mem_flatMap.mp h
  exact isMark_of_mem_keepBlank (isMark_of_mem_escapeChars hc) hd

end WikiHtml.Text
