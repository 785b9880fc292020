-- Highlighting is presentation only: without its `span` tags, highlighted code is the code as it is
-- written without highlighting. One path cuts the text into tokens and escapes each of them, the
-- other escapes the whole text; both meet at the text that the tokens make up.
import Mathlib.Data.List.Basic
import WikiHtml.Proofs.Highlight.Runs
import WikiHtml.Proofs.Text.Escape

namespace WikiHtml.Highlight

/-! ## Deleting the tags -/

/-- What follows the `<` of each start tag of a highlighter. -/
def spanOpening : List Char :=
  "span class=\"code-".toList

/-- What follows the `<` of its end tag. -/
def spanClosing : List Char :=
  "/span>".toList

/-- The text without the `span` tags of a highlighter. A start tag goes through the next `>`. -/
def withoutSpanTags : List Char → List Char
  | [] => []
  | c :: rest =>
    if c = '<' && spanOpening.isPrefixOf rest then
      withoutSpanTags (rest.dropWhile (· != '>')).tail
    else if c = '<' && spanClosing.isPrefixOf rest then
      withoutSpanTags (rest.drop spanClosing.length)
    else c :: withoutSpanTags rest
termination_by text => text.length
decreasing_by
  · have := (List.dropWhile_sublist (l := rest) (· != '>')).length_le
    simp only [List.length_tail, List.length_cons]
    omega
  · simp only [List.length_drop, List.length_cons]
    omega
  · simp

/-- HTML without the `span` tags of a highlighter. -/
def withoutSpans (html : String) : String :=
  String.ofList (withoutSpanTags html.toList)

/-- Text without `<` stays. -/
theorem withoutSpanTags_text {text : List Char} (h : '<' ∉ text) (rest : List Char) :
    withoutSpanTags (text ++ rest) = text ++ withoutSpanTags rest := by
  induction text with
  | nil => rfl
  | cons c text ih =>
    rw [List.mem_cons, not_or] at h
    have hc : c ≠ '<' := Ne.symm h.1
    rw [List.cons_append, withoutSpanTags]
    simp only [hc, decide_false, Bool.false_and, Bool.false_eq_true, if_false, ih h.2,
      List.cons_append]

theorem withoutSpanTags_lineBreakHtml (rest : List Char) :
    withoutSpanTags (lineBreakHtml ++ rest) = lineBreakHtml ++ withoutSpanTags rest := by
  have htail : '<' ∉ ['b', 'r', '>', '\n'] := by decide
  have hopening : spanOpening.isPrefixOf (['b', 'r', '>', '\n'] ++ rest) = false := rfl
  have hclosing : spanClosing.isPrefixOf (['b', 'r', '>', '\n'] ++ rest) = false := rfl
  unfold lineBreakHtml
  rw [List.cons_append, withoutSpanTags, hopening, hclosing, withoutSpanTags_text htail]
  rfl

theorem withoutSpanTags_spanEnd (rest : List Char) :
    withoutSpanTags (spanEnd ++ rest) = withoutSpanTags rest := by
  have hopening : spanOpening.isPrefixOf (spanClosing ++ rest) = false := rfl
  have hclosing : spanClosing.isPrefixOf (spanClosing ++ rest) = true :=
    List.isPrefixOf_iff_prefix.mpr (List.prefix_append _ _)
  change withoutSpanTags ('<' :: (spanClosing ++ rest)) = withoutSpanTags rest
  rw [withoutSpanTags, hopening, hclosing, List.drop_left]
  rfl

/-- A start tag of any class goes as a whole. -/
theorem withoutSpanTags_spanOpening {name : List Char} (h : '>' ∉ name) (rest : List Char) :
    withoutSpanTags ('<' :: (spanOpening ++ (name ++ '>' :: rest))) = withoutSpanTags rest := by
  have hopening : spanOpening.isPrefixOf (spanOpening ++ (name ++ '>' :: rest)) = true :=
    List.isPrefixOf_iff_prefix.mpr (List.prefix_append _ _)
  have hmark : ∀ c ∈ spanOpening ++ name, (c != '>') = true := by
    have hfixed : ∀ c ∈ spanOpening, (c != '>') = true := List.all_eq_true.mp (by decide)
    intro c hc
    rcases List.mem_append.mp hc with hc | hc
    · exact hfixed c hc
    · rw [bne_iff_ne]
      intro he
      exact h (he ▸ hc)
  rw [withoutSpanTags, hopening, ← List.append_assoc, List.dropWhile_append_of_pos hmark]
  rfl

/-! ## One token -/

/-- The names that classes are made of hold no mark. -/
theorem isMark_of_mem_cssName (language : Language) :
    ∀ c ∈ language.cssName.toList, Text.isMark c = false := by
  cases language <;> exact Text.isMark_of_all (by decide)

theorem isMark_of_mem_kindName {kind : TokenKind} {name : String} (h : kind.cssName = some name) :
    ∀ c ∈ name.toList, Text.isMark c = false := by
  cases kind <;> cases h <;> exact Text.isMark_of_all (by decide)

theorem withoutSpanTags_spanStart (language : Language) {kind : TokenKind} {name : String}
    (h : kind.cssName = some name) (rest : List Char) :
    withoutSpanTags (spanStart language name ++ rest) = withoutSpanTags rest := by
  have hnames : '>' ∉ language.cssName.toList ++ '-' :: (name.toList ++ ['"']) := by
    have hlanguage : '>' ∉ language.cssName.toList := fun hc =>
      Bool.noConfusion (isMark_of_mem_cssName language _ hc)
    have hkind : '>' ∉ name.toList := fun hc =>
      Bool.noConfusion (isMark_of_mem_kindName h _ hc)
    simp [hlanguage, hkind]
  rw [← withoutSpanTags_spanOpening hnames rest]
  have hstart : spanStart language name = '<' :: (spanOpening ++
      (language.cssName.toList ++ '-' :: (name.toList ++ ['"']) ++ ['>'])) := by
    change '<' :: (spanOpening ++ _ ++ _ ++ _ ++ _) = _
    simp only [List.append_assoc, List.cons_append, List.nil_append]
  rw [hstart]
  simp only [List.append_assoc, List.cons_append, List.nil_append]

/-- Escaped code without line breaks is the same on both paths. -/
theorem escapeCodeChars_eq_plain {text : List Char} (hbreak : '\n' ∉ text) (hreturn : '\r' ∉ text) :
    Text.escapeCodeChars text = (Text.escapeChars text).flatMap plainChar := by
  unfold Text.escapeCodeChars
  refine List.flatMap_congr fun c hc => ?_
  unfold plainChar
  rw [if_neg, if_neg]
  · rintro rfl
    exact hreturn (Text.mem_of_mem_escapeChars hc rfl)
  · rintro rfl
    exact hbreak (Text.mem_of_mem_escapeChars hc rfl)

/-- The text of a token as it is written without highlighting. -/
theorem withoutSpanTags_token (language : Language) {token : Token} (h : token.KeepsLines)
    (hreturn : '\r' ∉ token.text) (rest : List Char) :
    withoutSpanTags (Token.html language token ++ rest) =
      (Text.escapeChars token.text).flatMap plainChar ++ withoutSpanTags rest := by
  unfold Token.html
  by_cases hkind : token.kind = .lineBreak
  · rw [if_pos hkind, h.alone hkind, withoutSpanTags_lineBreakHtml]
    rfl
  · have hmark : '<' ∉ Text.escapeCodeChars token.text := fun hc => by
      have := Text.isMark_of_mem_escapeCodeChars hc
      simp [Text.isMark] at this
    have htext := escapeCodeChars_eq_plain (fun hc => hkind (h.break_iff.mp hc)) hreturn
    rw [if_neg hkind, ← htext]
    simp only
    split
    · rename_i hname
      rw [List.append_assoc, List.append_assoc, withoutSpanTags_spanStart language hname,
        withoutSpanTags_text hmark, withoutSpanTags_spanEnd]
    · exact withoutSpanTags_text hmark rest

/-! ## The whole code block -/

theorem withoutSpanTags_tokens (language : Language) {tokens : List Token}
    (h : ∀ token ∈ tokens, token.KeepsLines ∧ '\r' ∉ token.text) :
    withoutSpanTags (tokens.flatMap (Token.html language)) =
      (Text.escapeChars (tokens.flatMap (·.text))).flatMap plainChar := by
  induction tokens with
  | nil => rw [List.flatMap_nil, withoutSpanTags]; rfl
  | cons token tokens ih =>
    obtain ⟨hlines, hreturn⟩ := h token List.mem_cons_self
    have hrest := ih fun t ht => h t (List.mem_cons_of_mem _ ht)
    rw [List.flatMap_cons, withoutSpanTags_token language hlines hreturn, hrest]
    simp only [Text.escapeChars, List.flatMap_cons, List.flatMap_append]

/-- Carriage returns are dropped after the escaping as well as before it. -/
theorem plainChar_withoutReturns (text : List Char) :
    (Text.escapeChars (withoutReturns text)).flatMap plainChar =
      (Text.escapeChars text).flatMap plainChar := by
  unfold Text.escapeChars withoutReturns
  induction text with
  | nil => rfl
  | cons c text ih =>
    by_cases hc : c = '\r'
    · subst hc
      exact ih
    · rw [List.filter_cons_of_pos (by simp [hc])]
      simp only [List.flatMap_cons, List.flatMap_append, ih]

/-- Code that is not highlighted has no tags to delete. -/
theorem withoutSpanTags_plain (text : List Char) :
    withoutSpanTags ((Text.escapeChars text).flatMap plainChar) =
      (Text.escapeChars text).flatMap plainChar := by
  have hmark : '<' ∉ Text.escapeChars text := fun hc => by
    have := Text.isMark_of_mem_escapeChars hc
    simp [Text.isMark] at this
  generalize Text.escapeChars text = escaped at hmark
  induction escaped with
  | nil => rw [List.flatMap_nil, withoutSpanTags]
  | cons c escaped ih =>
    rw [List.mem_cons, not_or] at hmark
    rw [List.flatMap_cons]
    by_cases hbreak : c = '\n'
    · subst hbreak
      exact (withoutSpanTags_lineBreakHtml _).trans (congrArg _ (ih hmark.2))
    · have hc : '<' ∉ plainChar c := by
        unfold plainChar Text.keepBlank
        rw [if_neg hbreak]
        split
        · exact List.not_mem_nil
        · split
          · decide
          · simpa using hmark.1
      rw [withoutSpanTags_text hc, ih hmark.2]

/-- Highlighted code without its `span` tags is the code as it is written without highlighting: the
same characters, line breaks and blanks. Carriage returns show in neither. -/
theorem highlighting_adds_only_spans (code : String) :
    (∀ language : Language, withoutSpans (language.html code) = plain code) ∧
      (∀ name, withoutSpans (html name code) = plain code) ∧
      plain (String.ofList (withoutReturns code.toList)) = plain code := by
  have hlanguage : ∀ language : Language, withoutSpans (language.html code) = plain code := by
    intro language
    have htext := tokensFrom_text language.lexer language.lexer.start (withoutReturns code.toList)
    have hlines := tokensFrom_keepsLines (cut_keepsLines language) language.lexer.start
      (withoutReturns code.toList)
    have htokens : ∀ token ∈ language.tokens code, token.KeepsLines ∧ '\r' ∉ token.text := by
      intro token ht
      rw [Language.tokens_eq] at ht
      refine ⟨hlines token ht, fun hr => ?_⟩
      have hmem : '\r' ∈ (language.lexer.tokens code.toList).flatMap (·.text) :=
        List.mem_flatMap.mpr ⟨token, ht, hr⟩
      have : '\r' ∈ withoutReturns code.toList := htext ▸ hmem
      simp [withoutReturns] at this
    unfold withoutSpans plain Language.html Text.escape
    rw [String.toList_ofList, String.toList_ofList, withoutSpanTags_tokens language htokens,
      Language.tokens_eq, ← plainChar_withoutReturns code.toList]
    exact congrArg (fun text => String.ofList ((Text.escapeChars text).flatMap plainChar)) htext
  refine ⟨hlanguage, fun name => ?_, ?_⟩
  · unfold html
    split
    · exact hlanguage _
    · unfold withoutSpans plain Text.escape
      rw [String.toList_ofList, String.toList_ofList, withoutSpanTags_plain]
  · unfold plain Text.escape
    rw [String.toList_ofList, String.toList_ofList, String.toList_ofList, plainChar_withoutReturns]

end WikiHtml.Highlight
