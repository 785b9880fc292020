-- Languages that are read line by line. What the lexer decides within a line does not depend on what
-- comes after the line, and a line break leaves nothing in mind, so each line is read as if it stood
-- alone.
import WikiHtml.Proofs.Highlight.Reading

namespace WikiHtml.Highlight

/-! ## Lengths up to the end of a line -/

/-- Where a line break stops a token, what follows the line does not count. -/
theorem lengthUntil_line {stop : Char → Bool} (h : stop '\n' = true) (text later : List Char) :
    lengthUntil stop (text ++ '\n' :: later) = lengthUntil stop text := by
  have hbreak : ('\n' :: later).takeWhile (!stop ·) = [] := by simp [h]
  rw [lengthUntil, List.takeWhile_append, hbreak]
  split
  · rename_i hall
    rw [List.append_nil, lengthUntil, hall]
  · rfl

/-- What goes over no line break ends with the text in front of it. -/
theorem WithinLine.le_length {text later : List Char} {n : Nat}
    (h : WithinLine (text ++ '\n' :: later) n) : n ≤ text.length := by
  by_contra hlonger
  obtain ⟨more, hn⟩ := Nat.exists_eq_add_of_lt (Nat.lt_of_not_le hlonger)
  refine h ?_
  rw [hn, Nat.add_assoc, List.take_length_add_append]
  exact List.mem_append_right _ List.mem_cons_self

/-! ## Lexers that read line by line -/

/-- The lexer starts anew at each line break, and within a line it does not look beyond it. -/
structure Lexer.ByLines (l : Lexer) : Prop where
  starts_anew : ∀ s rest, l.cut s '\n' rest = ⟨.lineBreak, 0, l.start⟩
  keepsLines : ∀ s c rest, (l.cut s c rest).KeepsLines c rest
  within_line : ∀ s c rest later, l.cut s c (rest ++ '\n' :: later) = l.cut s c rest

section

variable {l : Lexer}

/-- A token of a line is the same with more lines behind it. -/
theorem Lexer.ByLines.tokensFrom_cons (h : l.ByLines) (s : l.State) (c : Char)
    (rest later : List Char) :
    l.tokensFrom s (c :: (rest ++ '\n' :: later)) =
      ⟨(l.cut s c rest).kind, c :: rest.take (l.cut s c rest).more⟩ ::
        l.tokensFrom (l.cut s c rest).next (rest.drop (l.cut s c rest).more ++ '\n' :: later) := by
  have hcut := h.within_line s c rest later
  have hwithin := (h.keepsLines s c (rest ++ '\n' :: later)).within
  rw [hcut] at hwithin
  have hle := hwithin.le_length
  rw [Highlight.tokensFrom_cons, hcut, List.take_append_of_le_length hle,
    List.drop_append_of_le_length hle]

/-- What comes before a line break and what comes after it are read on their own. -/
theorem Lexer.ByLines.tokensFrom_lines (h : l.ByLines) (s : l.State) (text later : List Char) :
    l.tokensFrom s (text ++ '\n' :: later) =
      l.tokensFrom s text ++ ⟨.lineBreak, ['\n']⟩ :: l.tokensFrom l.start later := by
  fun_induction l.tokensFrom s text with
  | case1 s => exact (reads_char (h.starts_anew s later)).tokensFrom_eq
  | case2 s c rest cut ih =>
    rw [List.cons_append, h.tokensFrom_cons s c]
    exact congrArg _ ih

/-- The tokens of two texts with a line break between them. -/
theorem Lexer.ByLines.tokens_lines (h : l.ByLines) (a b : List Char) :
    l.tokens (a ++ '\n' :: b) = l.tokens a ++ ⟨.lineBreak, ['\n']⟩ :: l.tokens b := by
  have hcode : withoutReturns (a ++ '\n' :: b) = withoutReturns a ++ '\n' :: withoutReturns b :=
    withoutReturns_append a ('\n' :: b)
  rw [Lexer.tokens, hcode, h.tokensFrom_lines, Lexer.tokens, Lexer.tokens]

end

/-! ## INI and properties -/

theorem Ini.byLines : Ini.lexer.ByLines where
  starts_anew expect rest := by cases expect <;> rfl
  keepsLines := Ini.cut_keepsLines
  within_line expect c rest later := by
    have hline : lengthOfLine (rest ++ '\n' :: later) = lengthOfLine rest := lengthUntil_line rfl _ _
    have hblanks : lengthOfBlanks (rest ++ '\n' :: later) = lengthOfBlanks rest :=
      lengthUntil_line rfl _ _
    have hname : lengthUntil (fun c => c == ']' || c == '\n') (rest ++ '\n' :: later) =
        lengthUntil (fun c => c == ']' || c == '\n') rest := lengthUntil_line rfl _ _
    have hkey : lengthUntil Ini.endsKey (rest ++ '\n' :: later) = lengthUntil Ini.endsKey rest :=
      lengthUntil_line rfl _ _
    show Ini.cut _ _ _ = Ini.cut _ _ _
    unfold Ini.cut
    rw [hline, hblanks, hname, hkey]

theorem Properties.byLines : Properties.lexer.ByLines where
  starts_anew expect rest := rfl
  keepsLines := Properties.cut_keepsLines
  within_line expect c rest later := by
    have hline : lengthOfLine (rest ++ '\n' :: later) = lengthOfLine rest := lengthUntil_line rfl _ _
    have hblanks : lengthOfBlanks (rest ++ '\n' :: later) = lengthOfBlanks rest :=
      lengthUntil_line rfl _ _
    have hkey : lengthUntil Properties.endsKey (rest ++ '\n' :: later) =
        lengthUntil Properties.endsKey rest := lengthUntil_line rfl _ _
    -- the end of the line is no second slash
    have hcomment : Properties.startsComment c (rest ++ '\n' :: later) =
        Properties.startsComment c rest := by
      cases rest <;> rfl
    show Properties.cut _ _ _ = Properties.cut _ _ _
    unfold Properties.cut
    rw [hline, hblanks, hkey, hcomment]

/-- INI and properties are read line by line: what stands before a line break does not change how what
stands after it is read, nor the other way round. -/
theorem lines_are_read_on_their_own (a b : String) :
    Language.ini.tokens (a ++ "\n" ++ b) =
        Language.ini.tokens a ++ ⟨.lineBreak, ['\n']⟩ :: Language.ini.tokens b ∧
      Language.properties.tokens (a ++ "\n" ++ b) =
        Language.properties.tokens a ++ ⟨.lineBreak, ['\n']⟩ :: Language.properties.tokens b := by
  have hcode : (a ++ "\n" ++ b).toList = a.toList ++ '\n' :: b.toList := by
    rw [String.toList_append, String.toList_append, List.append_assoc]
    rfl
  simp only [Language.tokens_eq, hcode]
  exact ⟨Ini.byLines.tokens_lines _ _, Properties.byLines.tokens_lines _ _⟩

end WikiHtml.Highlight
