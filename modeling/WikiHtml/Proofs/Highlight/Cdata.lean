-- CDATA sections. Within a line their text is taken as it is, but the lexer looks for the start of a
-- comment before it minds the section: where a line of the text starts like a comment it is one, and
-- the end of the section is lost.
import WikiHtml.Proofs.Highlight.Reading
import WikiHtml.Proofs.Text.Pieces

namespace WikiHtml.Highlight.Xml

open Text

/-- The mark at the start of a CDATA section. -/
def sectionStart : List Char := "<![CDATA[".toList

/-- The mark at its end. -/
def sectionEnd : List Char := "]]>".toList

/-- The mark at the start of a comment. -/
def commentStart : List Char := "<!--".toList

/-! ## Marks -/

/-- What does not hold a character of a mark at its start has no part in the mark. -/
theorem prefix_of_append {mark text rest : List Char} (hr : ∀ c ∈ rest.head?, c ∉ mark)
    (h : mark <+: text ++ rest) : mark <+: text := by
  induction mark generalizing text with
  | nil => exact List.nil_prefix
  | cons m mark ih =>
    cases text with
    | nil =>
      cases rest with
      | nil => exact h
      | cons c rest =>
        obtain ⟨rfl, -⟩ := List.cons_prefix_cons.mp h
        exact absurd List.mem_cons_self (hr m rfl)
    | cons c text =>
      obtain ⟨rfl, htail⟩ := List.cons_prefix_cons.mp h
      exact List.cons_prefix_cons.mpr
        ⟨rfl, ih (fun c hc hm => hr c hc (List.mem_cons_of_mem m hm)) htail⟩

/-- What may follow a line of a section: a line break or the end of the section. -/
def EndsLine (rest : List Char) : Prop :=
  rest.head? = some '\n' ∨ sectionEnd <+: rest

/-- Brackets at the end of a line are no part of the mark after it. -/
theorem no_end_in_line {c : Char} {text rest : List Char}
    (h : ¬ sectionEnd <:+: c :: text) (hr : EndsLine rest) :
    ¬ sectionEnd <+: c :: (text ++ rest) := by
  intro hp
  rcases hr with hr | ⟨later, rfl⟩
  · have hapart : ∀ d ∈ rest.head?, d ∉ sectionEnd := by
      rw [hr]
      rintro d hd
      rw [← Option.mem_some.mp hd]
      decide
    have hfirst : sectionEnd <+: (c :: text) ++ rest := hp
    exact h (prefix_of_append hapart hfirst).isInfix
  · match text with
    | [] => cases hp.getElem (i := 2) (by decide)
    | [d] => cases hp.getElem (i := 2) (by decide)
    | d :: e :: text =>
      exact h (List.prefix_of_prefix_length_le hp (List.prefix_append (c :: d :: e :: text) _)
        (by simp [sectionEnd])).isInfix

theorem cdataLength_cons {c : Char} {rest : List Char} (hc : c ≠ '\n')
    (h : ¬ sectionEnd <+: c :: rest) : cdataLength (c :: rest) = cdataLength rest + 1 := by
  rw [cdataLength]
  · exact hc
  · rintro later rfl rfl
    exact h (List.prefix_append sectionEnd later)

theorem cdataLength_append {text rest : List Char} (h : ¬ sectionEnd <:+: text) (hline : '\n' ∉ text)
    (hr : EndsLine rest) : cdataLength (text ++ rest) = text.length := by
  induction text with
  | nil =>
    rcases hr with hr | ⟨later, rfl⟩
    · obtain ⟨later, rfl⟩ := List.head?_eq_some_iff.mp hr
      rfl
    · rfl
  | cons c text ih =>
    rw [List.mem_cons, not_or] at hline
    rw [List.cons_append, cdataLength_cons (Ne.symm hline.1) (no_end_in_line h hr),
      ih (fun hi => h (hi.trans (List.suffix_cons c text).isInfix)) hline.2, List.length_cons]

/-! ## One token of a section -/

section

variable {c : Char} {rest : List Char}

theorem cut_cdata (hc : c ≠ '\n') (hend : ¬ sectionEnd <+: c :: rest)
    (hmark : ¬ commentStart <+: c :: rest) :
    cut .cdata c rest = ⟨.text, cdataLength rest, .cdata⟩ := by
  unfold cut
  rw [if_neg hc, if_neg (by decide)]
  split
  · rename_i hopen
    subst hopen
    unfold cutMark
    rw [if_neg, if_pos rfl]
    exact fun hp => hmark (List.cons_prefix_cons.mpr ⟨rfl, List.isPrefixOf_iff_prefix.mp hp⟩)
  · rw [if_pos rfl, if_neg]
    exact fun hp => hend (List.isPrefixOf_iff_prefix.mp hp)

/-- A comment may start in a section, in front of anything else. -/
theorem comment_of_commentStart {text : List Char} (h : commentStart <+: text) :
    ∃ token later, lexer.tokensFrom .cdata text = token :: later ∧ token.kind = .comment := by
  obtain ⟨rest, rfl⟩ := h
  refine ⟨_, _, tokensFrom_cons lexer .cdata '<' ("!--".toList ++ rest), ?_⟩
  show (cutMark .cdata ("!--".toList ++ rest)).kind = .comment
  rw [cutMark, if_pos (List.isPrefixOf_iff_prefix.mpr (List.prefix_append _ rest))]

end

/-! ## Lines of a section -/

/-- The kinds of tokens that leave the text of a section as it is. -/
def IsLiteral (kind : TokenKind) : Prop :=
  kind = .text ∨ kind = .lineBreak

/-- What is left after some lines of a section: what follows them, or more than that, from the first line
on that starts like a comment. -/
def LeftOf (lines : List (List Char)) (rest left : List Char) : Prop :=
  left = rest ∧ (∀ line ∈ lines, ¬ commentStart <+: line) ∨
    commentStart <+: left ∧ rest.length < left.length ∧ ∃ line ∈ lines, commentStart <+: line

theorem LeftOf.cons {line : List Char} {lines : List (List Char)} {rest left : List Char}
    (h : LeftOf lines rest left) (hline : ∀ l ∈ [line], ¬ commentStart <+: l) :
    LeftOf (line :: lines) rest left := by
  rcases h with ⟨hleft, hplain⟩ | ⟨hmark, hlonger, l, hl, hcomment⟩
  · exact .inl ⟨hleft, List.forall_mem_cons.mpr ⟨hline line (by simp), hplain⟩⟩
  · exact .inr ⟨hmark, hlonger, l, List.mem_cons_of_mem line hl, hcomment⟩

theorem no_comment_in_line {line rest : List Char} (h : ¬ commentStart <+: line)
    (hr : EndsLine rest) : ¬ commentStart <+: line ++ rest := by
  refine fun hp => h (prefix_of_append (fun d hd => ?_) hp)
  rcases hr with hr | ⟨later, rfl⟩
  · obtain rfl := Option.some.inj (hr.symm.trans hd)
    decide
  · obtain rfl := Option.some.inj hd
    decide

theorem reads_plainLine {line rest : List Char} (hline : '\n' ∉ line)
    (hend : ¬ sectionEnd <:+: line) (hmark : ¬ commentStart <+: line) (hr : EndsLine rest) :
    lexer.Reads .cdata (line ++ rest) (tokenIfAny .text line) .cdata rest := by
  cases line with
  | nil => exact .done
  | cons c more =>
    have hcut := cut_cdata (List.ne_of_not_mem_cons hline).symm (no_end_in_line hend hr)
      (no_comment_in_line hmark hr)
    rw [cdataLength_append (fun hi => hend (hi.trans (List.suffix_cons c more).isInfix))
      (List.not_mem_of_not_mem_cons hline) hr] at hcut
    exact reads_one hcut

theorem reads_sectionLine {line rest : List Char} (hline : '\n' ∉ line)
    (hend : ¬ sectionEnd <:+: line) (hr : EndsLine rest) :
    ∃ tokens left, lexer.Reads .cdata (line ++ rest) tokens .cdata left ∧
      (∀ token ∈ tokens, IsLiteral token.kind) ∧ LeftOf [line] rest left := by
  by_cases hmark : commentStart <+: line
  · have hlength : 4 ≤ line.length := hmark.length_le
    refine ⟨[], line ++ rest, .done, by simp, .inr ⟨hmark.trans (List.prefix_append _ _), ?_, ?_⟩⟩
    · rw [List.length_append]
      omega
    · exact ⟨line, by simp, hmark⟩
  · refine ⟨_, rest, reads_plainLine hline hend hmark hr, ?_, .inl ⟨rfl, by simpa using hmark⟩⟩
    cases line with
    | nil => simp
    | cons c more => simp [IsLiteral]

theorem endsLine_behind (lines : List (List Char)) {rest : List Char} (hr : EndsLine rest) :
    EndsLine (behind '\n' lines ++ rest) := by
  cases lines with
  | nil => exact hr
  | cons line lines => exact .inl rfl

theorem reads_sectionLines {line : List Char} {lines : List (List Char)} {rest : List Char}
    (hlines : ∀ l ∈ line :: lines, '\n' ∉ l ∧ ¬ sectionEnd <:+: l) (hr : EndsLine rest) :
    ∃ tokens left, lexer.Reads .cdata (line ++ (behind '\n' lines ++ rest)) tokens .cdata left ∧
      (∀ token ∈ tokens, IsLiteral token.kind) ∧ LeftOf (line :: lines) rest left := by
  induction lines generalizing line with
  | nil =>
    obtain ⟨hline, hend⟩ := hlines line (by simp)
    exact reads_sectionLine hline hend hr
  | cons second lines ih =>
    obtain ⟨⟨hline, hend⟩, hlater⟩ := List.forall_mem_cons.mp hlines
    obtain ⟨tokens, left, hreads, hkinds, hleft⟩ :=
      reads_sectionLine hline hend (endsLine_behind (second :: lines) hr)
    rcases hleft with ⟨rfl, hplain⟩ | ⟨hmark, hlonger, hsome⟩
    · obtain ⟨tokens', left, hreads', hkinds', hleft⟩ := ih hlater
      have hbreak : lexer.Reads .cdata (behind '\n' (second :: lines) ++ rest)
          [⟨.lineBreak, ['\n']⟩] .cdata (second ++ (behind '\n' lines ++ rest)) := by
        rw [behind_cons, List.cons_append, List.append_assoc]
        exact reads_char rfl
      refine ⟨tokens ++ ([⟨.lineBreak, ['\n']⟩] ++ tokens'), left,
        hreads.append (hbreak.append hreads'), ?_, hleft.cons hplain⟩
      intro token ht
      rcases List.mem_append.mp ht with ht | ht
      · exact hkinds token ht
      · rcases List.mem_cons.mp ht with rfl | ht
        · exact .inr rfl
        · exact hkinds' token ht
    · refine ⟨tokens, left, hreads, hkinds, .inr ⟨hmark, ?_, ?_⟩⟩
      · rw [List.length_append] at hlonger
        omega
      · obtain ⟨l, hl, hcomment⟩ := hsome
        exact ⟨l, by simp_all, hcomment⟩

/-! ## Sections -/

theorem reads_sectionStart (rest : List Char) :
    lexer.Reads .text (sectionStart ++ rest) [⟨.tag, sectionStart⟩] .cdata rest :=
  show lexer.Reads .text ('<' :: ("![CDATA[".toList ++ rest)) _ _ _ from reads_one rfl

theorem reads_sectionEnd (rest : List Char) :
    lexer.Reads .cdata (sectionEnd ++ rest) [⟨.tag, sectionEnd⟩] .text rest :=
  show lexer.Reads .cdata (']' :: ("]>".toList ++ rest)) _ _ _ from reads_one rfl

theorem tokens_section {s : String} (h : '\r' ∉ s.toList) (r : String) :
    Language.xml.tokens ("<![CDATA[" ++ s ++ "]]>" ++ r) = ⟨.tag, sectionStart⟩ ::
      lexer.tokensFrom .cdata (s.toList ++ (sectionEnd ++ withoutReturns r.toList)) := by
  have hs : withoutReturns s.toList = s.toList := by
    refine List.filter_eq_self.mpr fun c hc => ?_
    rw [bne_iff_ne]
    rintro rfl
    exact h hc
  have hcode : withoutReturns ("<![CDATA[" ++ s ++ "]]>" ++ r).toList =
      sectionStart ++ (s.toList ++ (sectionEnd ++ withoutReturns r.toList)) := by
    simp only [withoutReturns, String.toList_append, List.filter_append] at hs ⊢
    rw [hs, List.append_assoc, List.append_assoc]
    rfl
  rw [Language.tokens_eq]
  show lexer.tokensFrom .text (withoutReturns _) = _
  rw [hcode, (reads_sectionStart _).tokensFrom_eq]
  rfl

/-- Where a comment is read in a section, the tokens from the start of the section on are no reading of
its text as it is. -/
theorem not_literal_of_comment {tokens content later later' : List Token} {token : Token}
    (hcomment : token.kind = .comment)
    (htokens : tokens ++ token :: later = content ++ ⟨.tag, sectionEnd⟩ :: later')
    (hkinds : ∀ token ∈ content, IsLiteral token.kind) :
    (content.flatMap (·.text)).length ≤ (tokens.flatMap (·.text)).length := by
  rcases List.append_eq_append_iff.mp htokens with ⟨between, rfl, hbetween⟩ | ⟨between, rfl, -⟩
  · cases between with
    | nil =>
      rw [List.nil_append, List.cons.injEq] at hbetween
      cases hcomment.symm.trans (congrArg Token.kind hbetween.1)
    | cons token' between =>
      rw [List.cons_append, List.cons.injEq] at hbetween
      have hliteral := hkinds token' (by simp)
      rw [← hbetween.1] at hliteral
      rcases hliteral with hk | hk <;> cases hcomment.symm.trans hk
  · simp

/-- The text of a CDATA section is shown as it is, by texts and line breaks, and what follows the section
is read as if it stood alone, exactly if no line of the text starts like a comment. -/
theorem cdata_is_literal_unless_a_line_starts_like_a_comment (s r : String)
    (hend : ¬ sectionEnd <:+: s.toList) (hreturn : '\r' ∉ s.toList) :
    (∃ content,
      Language.xml.tokens ("<![CDATA[" ++ s ++ "]]>" ++ r) =
          ⟨.tag, sectionStart⟩ :: (content ++ ⟨.tag, sectionEnd⟩ :: Language.xml.tokens r) ∧
        (∀ token ∈ content, IsLiteral token.kind) ∧ content.flatMap (·.text) = s.toList) ↔
      ∀ line ∈ s.toList.splitOn '\n', ¬ commentStart <+: line := by
  obtain ⟨line, lines, hsplit, htext, hline, hlines⟩ := exists_pieces '\n' s.toList
  have hboth : ∀ l ∈ line :: lines, '\n' ∉ l ∧ ¬ sectionEnd <:+: l := by
    rw [htext] at hend
    intro l hl
    rcases List.mem_cons.mp hl with rfl | hl
    · exact ⟨hline, fun hi => hend (hi.trans (List.prefix_append _ _).isInfix)⟩
    · exact ⟨hlines l hl,
        fun hi => hend ((hi.trans (infix_behind hl _)).trans (List.suffix_append _ _).isInfix)⟩
  have hrest : EndsLine (sectionEnd ++ withoutReturns r.toList) := .inr (List.prefix_append _ _)
  obtain ⟨tokens, left, hreads, hkinds, hleft⟩ := reads_sectionLines hboth hrest
  rw [← List.append_assoc, ← htext] at hreads
  have hspell := hreads.text_eq
  rw [tokens_section hreturn, hreads.tokensFrom_eq, hsplit]
  rcases hleft with ⟨rfl, hplain⟩ | ⟨hmark, hlonger, hsome⟩
  · refine iff_of_true ⟨tokens, ?_, hkinds, (List.append_cancel_right hspell).symm⟩ hplain
    rw [(reads_sectionEnd _).tokensFrom_eq, Language.tokens_eq]
    rfl
  · refine iff_of_false ?_ fun hplain => hsome.elim fun l hl => hplain l hl.1 hl.2
    rintro ⟨content, htokens, hliteral, hcontent⟩
    obtain ⟨token, later, hfirst, hcomment⟩ := comment_of_commentStart hmark
    rw [hfirst] at htokens
    have hle := not_literal_of_comment hcomment (List.cons.inj htokens).2 hliteral
    have hlength := congrArg List.length hspell
    rw [hcontent] at hle
    simp only [List.length_append] at hlength hlonger
    omega

/-- Marks within a line and brackets in front of the end are text. -/
theorem marks_within_lines_of_a_section_are_literal :
    ¬ sectionEnd <:+: " <!-- &\n]]".toList ∧ '\r' ∉ " <!-- &\n]]".toList ∧
      (∀ line ∈ " <!-- &\n]]".toList.splitOn '\n', ¬ commentStart <+: line) ∧
      ∃ content,
        Language.xml.tokens ("<![CDATA[" ++ " <!-- &\n]]" ++ "]]>" ++ "<a>") =
            ⟨.tag, sectionStart⟩ :: (content ++ ⟨.tag, sectionEnd⟩ :: Language.xml.tokens "<a>") ∧
          (∀ token ∈ content, IsLiteral token.kind) ∧
          content.flatMap (·.text) = " <!-- &\n]]".toList := by
  have hend : ¬ sectionEnd <:+: " <!-- &\n]]".toList := by decide +kernel
  have hreturn : '\r' ∉ " <!-- &\n]]".toList := by decide
  have hlines : ∀ line ∈ " <!-- &\n]]".toList.splitOn '\n', ¬ commentStart <+: line := by
    decide +kernel
  exact ⟨hend, hreturn, hlines,
    (cdata_is_literal_unless_a_line_starts_like_a_comment _ "<a>" hend hreturn).mpr hlines⟩

/-- A comment at the start of a section takes the end of the section with it. -/
theorem a_section_that_starts_like_a_comment_is_one :
    Language.xml.tokens ("<![CDATA[" ++ "<!--x" ++ "]]>" ++ "") =
      [⟨.tag, sectionStart⟩, ⟨.comment, "<!--x]]>".toList⟩] := by
  rw [Language.tokens_eq]
  decide +kernel

end WikiHtml.Highlight.Xml
