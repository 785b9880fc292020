-- The tokens of a code block: together they are its text, none of them is empty, and a line break is
-- always a token of its own. What a lexer decides at one character is shown for each language; the
-- laws of all tokens follow by going through the text.
import Mathlib.Data.List.TakeWhile
import Mathlib.Tactic.Tauto
import WikiHtml.Highlight.Language

namespace WikiHtml.Highlight

/-! ## Cuts within a line -/

/-- The first characters of a text, so many of them, hold no line break. -/
def WithinLine (text : List Char) (n : Nat) : Prop :=
  '\n' ∉ text.take n

theorem withinLine_zero (text : List Char) : WithinLine text 0 := by
  simp [WithinLine]

theorem withinLine_cons {c : Char} {text : List Char} {n : Nat} (hc : c ≠ '\n')
    (h : WithinLine text n) : WithinLine (c :: text) (n + 1) := by
  simp only [WithinLine, List.take_succ_cons, List.mem_cons, not_or]
  exact ⟨hc.symm, h⟩

theorem WithinLine.tail {c : Char} {text : List Char} {n : Nat} (h : WithinLine (c :: text) n) :
    WithinLine text (n - 1) := by
  cases n with
  | zero => exact withinLine_zero text
  | succ n =>
    simp only [WithinLine, List.take_succ_cons, List.mem_cons, not_or] at h
    exact h.2

/-- What is cut off where a line break stops it holds none. -/
theorem withinLine_lengthUntil {stop : Char → Bool} (h : stop '\n' = true) (text : List Char) :
    WithinLine text (lengthUntil stop text) := by
  intro hc
  unfold lengthUntil at hc
  rw [← List.prefix_iff_eq_take.mp (List.takeWhile_prefix _)] at hc
  have := List.mem_takeWhile_imp hc
  simp [h] at this

theorem withinLine_lengthOfLine (text : List Char) : WithinLine text (lengthOfLine text) :=
  withinLine_lengthUntil rfl text

theorem withinLine_lengthOfBlanks (text : List Char) : WithinLine text (lengthOfBlanks text) :=
  withinLine_lengthUntil rfl text

/-- A mark without line breaks, and so many characters after it. -/
theorem withinLine_mark {mark text : List Char} {n : Nat} (hm : '\n' ∉ mark)
    (hp : mark.isPrefixOf text = true) (h : WithinLine (text.drop mark.length) n) :
    WithinLine text (mark.length + n) := by
  obtain ⟨rest, rfl⟩ := List.isPrefixOf_iff_prefix.mp hp
  simp only [WithinLine, List.drop_left, List.take_length_add_append, List.mem_append] at h ⊢
  tauto

/-! ## One token -/

/-- A token that starts with `c`: a line break stands alone and is of its own kind, and no other
token holds one. -/
structure Cut.KeepsLines {State : Type} (cut : Cut State) (c : Char) (rest : List Char) : Prop where
  kind_iff : cut.kind = .lineBreak ↔ c = '\n'
  alone : c = '\n' → cut.more = 0
  within : WithinLine rest cut.more

section

variable {State : Type} {c : Char} {rest : List Char} {kind : TokenKind} {more : Nat} {next : State}

theorem keepsLines_break (next : State) (rest : List Char) :
    (Cut.mk .lineBreak 0 next).KeepsLines '\n' rest :=
  ⟨by simp, by simp, withinLine_zero rest⟩

theorem keepsLines_other (hc : c ≠ '\n') (hk : kind ≠ .lineBreak) (h : WithinLine rest more) :
    (Cut.mk kind more next).KeepsLines c rest :=
  ⟨by simp [hc, hk], fun he => absurd he hc, h⟩

end

theorem Ini.cut_keepsLines (expect : Ini.Expect) (c : Char) (rest : List Char) :
    (Ini.cut expect c rest).KeepsLines c rest := by
  by_cases hc : c = '\n'
  · subst hc
    cases expect <;> exact keepsLines_break _ rest
  · unfold Ini.cut
    split
    · exact absurd rfl hc
    all_goals apply keepsLines_other hc (by simp)
    all_goals first
      | exact withinLine_zero rest
      | exact withinLine_lengthOfLine rest
      | exact withinLine_lengthOfBlanks rest
      | exact withinLine_lengthUntil rfl rest

theorem Properties.cut_keepsLines (expect : Properties.Expect) (c : Char) (rest : List Char) :
    (Properties.cut expect c rest).KeepsLines c rest := by
  unfold Properties.cut
  split
  · rename_i hc
    subst hc
    exact keepsLines_break _ rest
  · rename_i hc
    split
    · exact keepsLines_other hc (by simp) (withinLine_lengthOfLine rest)
    · split
      · exact keepsLines_other hc (by simp) (withinLine_lengthOfBlanks rest)
      · split
        · exact keepsLines_other hc (by simp) (withinLine_lengthUntil rfl rest)
        · split
          · exact keepsLines_other hc (by simp) (withinLine_zero rest)
          · exact keepsLines_other hc (by simp) (withinLine_lengthOfLine rest)
        · exact keepsLines_other hc (by simp) (withinLine_lengthOfLine rest)

/-! ## Java -/

namespace Java

theorem withinLine_commentPart (text : List Char) : WithinLine text (commentPart text).1 := by
  fun_induction commentPart text with
  | case1 => exact withinLine_zero _
  | case2 rest => exact withinLine_zero _
  | case3 rest => simp [WithinLine]
  | case4 c rest hbreak _ part ih => exact withinLine_cons hbreak ih

theorem withinLine_literalLength (quote : Char) (text : List Char) :
    WithinLine text (literalLength quote text) := by
  fun_induction literalLength quote text with
  | case1 => exact withinLine_zero _
  | case2 rest => exact withinLine_zero _
  | case3 => simp [WithinLine]
  | case4 rest => simp [WithinLine]
  | case5 c tail hbreak ih => exact withinLine_cons (by simp) (withinLine_cons hbreak ih)
  | case6 rest hbreak _ => exact withinLine_cons hbreak (withinLine_zero _)
  | case7 c rest hbreak _ _ ih => exact withinLine_cons hbreak ih

theorem cut_keepsLines (place : Place) (c : Char) (rest : List Char) :
    (cut place c rest).KeepsLines c rest := by
  unfold cut
  split
  · rename_i hc
    subst hc
    exact keepsLines_break _ rest
  rename_i hc
  split
  · exact keepsLines_other hc (by simp) (withinLine_commentPart (c :: rest)).tail
  split
  · rename_i hstart
    simp only [Bool.and_eq_true, decide_eq_true_eq] at hstart
    obtain ⟨tail, rfl⟩ := List.head?_eq_some_iff.mp hstart.2
    exact keepsLines_other hc (by simp) (withinLine_cons (by simp) (withinLine_commentPart tail))
  split
  · exact keepsLines_other hc (by simp) (withinLine_lengthOfLine rest)
  split
  · exact keepsLines_other hc (by simp) (withinLine_literalLength c rest)
  split
  · have hstop : (!isWordChar '\n') = true := by decide
    refine keepsLines_other hc ?_ (withinLine_lengthUntil hstop rest)
    split <;> simp
  · exact keepsLines_other hc (by simp) (withinLine_zero rest)

end Java

/-! ## XML -/

namespace Xml

theorem withinLine_commentPart (text : List Char) : WithinLine text (commentPart text).1 := by
  fun_induction commentPart text with
  | case1 => exact withinLine_zero _
  | case2 rest => exact withinLine_zero _
  | case3 rest => simp [WithinLine]
  | case4 rest _ => simp [WithinLine]
  | case5 c rest hbreak _ _ part ih => exact withinLine_cons hbreak ih

theorem withinLine_cdataLength (text : List Char) : WithinLine text (cdataLength text) := by
  fun_induction cdataLength text with
  | case1 => exact withinLine_zero _
  | case2 rest => exact withinLine_zero _
  | case3 rest => exact withinLine_zero _
  | case4 c rest hbreak _ ih => exact withinLine_cons hbreak ih

theorem withinLine_quotedLength (quote : Char) (text : List Char) :
    WithinLine text (quotedLength quote text) := by
  fun_induction quotedLength quote text with
  | case1 => exact withinLine_zero _
  | case2 rest => exact withinLine_zero _
  | case3 rest hbreak => exact withinLine_cons hbreak (withinLine_zero _)
  | case4 c rest hbreak _ ih => exact withinLine_cons hbreak ih

theorem withinLine_referenceLength (text : List Char) :
    WithinLine text (referenceLength text) := by
  fun_induction referenceLength text with
  | case1 => exact withinLine_zero _
  | case2 rest => simp [WithinLine]
  | case3 c rest _ _ => exact withinLine_zero _
  | case4 c rest _ hblank ih =>
    refine withinLine_cons (fun hc => hblank ?_) ih
    rw [hc]
    decide

theorem withinLine_name (rest : List Char) :
    WithinLine rest (lengthUntil (!isNameChar ·) rest) :=
  withinLine_lengthUntil (by decide) rest

theorem cutMark_keepsLines (expect : Expect) (rest : List Char) :
    (cutMark expect rest).KeepsLines '<' rest := by
  have hc : '<' ≠ '\n' := by decide
  unfold cutMark
  split
  · rename_i hmark
    refine keepsLines_other hc (by simp) ?_
    rw [Nat.add_comm]
    exact withinLine_mark (by decide) hmark (withinLine_commentPart (rest.drop 3))
  split
  · exact keepsLines_other hc (by simp) (withinLine_cdataLength rest)
  split
  · rename_i hmark
    exact keepsLines_other hc (by simp) (withinLine_mark (by decide) hmark (withinLine_zero _))
  · exact keepsLines_other hc (by simp) (withinLine_zero rest)

theorem cutPlain_keepsLines (expect : Expect) {c : Char} (rest : List Char) (hc : c ≠ '\n') :
    (cutPlain expect c rest).KeepsLines c rest := by
  unfold cutPlain
  split
  · exact keepsLines_other hc (by simp) (withinLine_zero rest)
  split
  · exact keepsLines_other hc (by simp) (withinLine_zero rest)
  split
  · exact keepsLines_other hc (by simp) (withinLine_referenceLength rest)
  split
  · exact keepsLines_other hc (by simp) (withinLine_name rest)
  split
  · exact keepsLines_other hc (by simp) (withinLine_name rest)
  split
  · exact keepsLines_other hc (by simp) (withinLine_zero rest)
  split
  · refine keepsLines_other hc (by simp) ?_
    split
    · exact withinLine_quotedLength c rest
    · exact withinLine_lengthUntil (by decide) rest
  · exact keepsLines_other hc (by simp) (withinLine_lengthUntil (by simp) rest)

theorem cut_keepsLines (expect : Expect) (c : Char) (rest : List Char) :
    (cut expect c rest).KeepsLines c rest := by
  unfold cut
  split
  · rename_i hc
    subst hc
    exact keepsLines_break _ rest
  rename_i hc
  split
  · exact keepsLines_other hc (by simp) (withinLine_commentPart (c :: rest)).tail
  split
  · rename_i hmark
    subst hmark
    exact cutMark_keepsLines expect rest
  split
  · split
    · rename_i hend
      exact keepsLines_other hc (by simp)
        (withinLine_mark (n := 0) (by decide) hend (withinLine_zero _)).tail
    · exact keepsLines_other hc (by simp) (withinLine_cdataLength rest)
  · exact cutPlain_keepsLines expect rest hc

end Xml

/-! ## YAML -/

namespace Yaml

theorem cutBlockLine_keepsLines (s : State) {c : Char} (rest : List Char) (hc : c ≠ '\n') :
    (cutBlockLine s rest).KeepsLines c rest :=
  keepsLines_other hc (by simp) (withinLine_lengthOfLine rest)

theorem cut_keepsLines (s : State) (c : Char) (rest : List Char) :
    (cut s c rest).KeepsLines c rest := by
  unfold cut State.advance
  split
  · rename_i hc
    subst hc
    exact keepsLines_break _ rest
  rename_i hc
  split
  · split
    · rename_i hmark
      exact keepsLines_other hc (by simp) (withinLine_mark (by decide) hmark (withinLine_zero _))
    · exact keepsLines_other hc (by simp) (withinLine_zero rest)
  split
  · exact keepsLines_other hc (by simp) (withinLine_lengthOfLine rest)
  split
  · exact cutBlockLine_keepsLines s rest hc
  split
  · exact keepsLines_other hc (by simp) (withinLine_zero rest)
  split
  · exact keepsLines_other hc (by simp) (withinLine_lengthOfBlanks rest)
  split
  · exact keepsLines_other hc (by simp) (withinLine_lengthUntil rfl rest)
  split
  · exact cutBlockLine_keepsLines s rest hc
  · exact keepsLines_other hc (by simp) (withinLine_lengthOfLine rest)

end Yaml

theorem cut_keepsLines (language : Language) (s : language.lexer.State) (c : Char)
    (rest : List Char) : (language.lexer.cut s c rest).KeepsLines c rest := by
  cases language with
  | ini => exact Ini.cut_keepsLines s c rest
  | java => exact Java.cut_keepsLines s c rest
  | properties => exact Properties.cut_keepsLines s c rest
  | xml => exact Xml.cut_keepsLines s c rest
  | yaml => exact Yaml.cut_keepsLines s c rest

/-! ## All tokens -/

/-- A piece of a text that respects its lines: it holds something, and if it holds a line break, it is
that line break alone, of the kind of its own. -/
structure Token.KeepsLines (token : Token) : Prop where
  nonempty : token.text ≠ []
  break_iff : '\n' ∈ token.text ↔ token.kind = .lineBreak
  alone : token.kind = .lineBreak → token.text = ['\n']

/-- The token that a cut takes off a text. -/
theorem Cut.KeepsLines.token {State : Type} {cut : Cut State} {c : Char} {rest : List Char}
    (h : cut.KeepsLines c rest) :
    (Token.mk cut.kind (c :: rest.take cut.more)).KeepsLines := by
  refine ⟨by simp, ?_, fun hk => ?_⟩
  · rw [h.kind_iff, List.mem_cons, or_iff_left h.within]
    exact eq_comm
  · have hc := h.kind_iff.mp hk
    simp [h.alone hc, hc]

section

variable {l : Lexer}

theorem tokensFrom_nil (l : Lexer) (s : l.State) : l.tokensFrom s [] = [] := by
  rw [Lexer.tokensFrom]

theorem tokensFrom_cons (l : Lexer) (s : l.State) (c : Char) (rest : List Char) :
    l.tokensFrom s (c :: rest) =
      ⟨(l.cut s c rest).kind, c :: rest.take (l.cut s c rest).more⟩ ::
        l.tokensFrom (l.cut s c rest).next (rest.drop (l.cut s c rest).more) := by
  rw [Lexer.tokensFrom]

/-- No character is lost or added. -/
theorem tokensFrom_text (l : Lexer) (s : l.State) (text : List Char) :
    (l.tokensFrom s text).flatMap (·.text) = text := by
  fun_induction l.tokensFrom s text with
  | case1 => rfl
  | case2 s c rest cut ih => simp [ih]

theorem tokensFrom_keepsLines (h : ∀ s c rest, (l.cut s c rest).KeepsLines c rest) (s : l.State)
    (text : List Char) : ∀ token ∈ l.tokensFrom s text, token.KeepsLines := by
  fun_induction l.tokensFrom s text with
  | case1 => simp
  | case2 s c rest cut ih =>
    intro token ht
    rcases List.mem_cons.mp ht with rfl | ht
    · exact (h s c rest).token
    · exact ih token ht

/-- Where every token holds something there are no more tokens than characters. -/
theorem length_le_of_nonempty {tokens : List Token} (h : ∀ token ∈ tokens, token.text ≠ []) :
    tokens.length ≤ (tokens.flatMap (·.text)).length := by
  induction tokens with
  | nil => simp
  | cons token rest ih =>
    have hpos := List.length_pos_iff.mpr (h token (by simp))
    have hrest := ih fun t ht => h t (by simp [ht])
    simp only [List.flatMap_cons, List.length_append, List.length_cons]
    omega

end

end WikiHtml.Highlight
