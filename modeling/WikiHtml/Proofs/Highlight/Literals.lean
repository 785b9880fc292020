-- Comments and literals of Java. What stands in one of them opens nothing, and behind each of them the
-- lexer is where it was before, so what follows is read as if it stood alone.
import WikiHtml.Proofs.Highlight.Reading
import WikiHtml.Proofs.Text.Pieces

namespace WikiHtml.Highlight.Java

open Text

/-- The mark at the end of a block comment. -/
def commentEnd : List Char := ['*', '/']

/-- What may stand between the quotes of a literal: characters of the line other than the quote and the
backslash, and backslashes, each with the character behind it. -/
inductive LiteralBody (quote : Char) : List Char → Prop
  | nil : LiteralBody quote []
  | plain {c : Char} {text : List Char} : c ≠ quote → c ≠ '\\' → c ≠ '\n' →
      LiteralBody quote text → LiteralBody quote (c :: text)
  | escaped {c : Char} {text : List Char} : c ≠ '\n' → LiteralBody quote text →
      LiteralBody quote ('\\' :: c :: text)

/-! ## One token -/

section

variable {c : Char} {rest : List Char}

theorem cut_commentStart (rest : List Char) :
    cut .code '/' ('*' :: rest) = ⟨.comment, (commentPart rest).1 + 1, (commentPart rest).2⟩ :=
  rfl

theorem cut_commentLine (hc : c ≠ '\n') (rest : List Char) :
    cut .blockComment c rest =
      ⟨.comment, (commentPart (c :: rest)).1 - 1, (commentPart (c :: rest)).2⟩ := by
  rw [cut, if_neg hc, if_pos rfl]

theorem cut_lineComment (rest : List Char) :
    cut .code '/' ('/' :: rest) = ⟨.comment, lengthOfLine ('/' :: rest), .code⟩ :=
  rfl

theorem cut_quote (hc : c = '"' ∨ c = '\'') (rest : List Char) :
    cut .code c rest = ⟨.string, literalLength c rest, .code⟩ := by
  rcases hc with rfl | rfl <;> rfl

end

/-! ## Lines of a block comment -/

section

variable {c : Char} {line more rest : List Char} {next : Place}

theorem commentPart_cons (hc : c ≠ '\n') (h : ¬ commentEnd <+: c :: rest) :
    commentPart (c :: rest) = ((commentPart rest).1 + 1, (commentPart rest).2) := by
  rw [commentPart]
  · exact hc
  · rintro later rfl rfl
    exact h (List.prefix_append commentEnd later)

/-- A star at the end of a line is no part of a mark with what comes behind it. -/
theorem no_end_at_star (h : ¬ commentEnd <:+: c :: line) (hr : rest.head? ≠ some '/') :
    ¬ commentEnd <+: c :: (line ++ rest) := by
  intro hp
  cases line with
  | nil =>
    obtain ⟨later, hlater⟩ := hp
    have hrest : '/' :: later = rest := (List.cons.inj hlater).2
    rw [← hrest] at hr
    exact hr rfl
  | cons d line =>
    have hlength : commentEnd.length ≤ (c :: d :: line).length := by simp [commentEnd]
    have hline := List.prefix_append (c :: d :: line) rest
    exact h (List.prefix_of_prefix_length_le hp hline hlength).isInfix

theorem commentPart_append (h : ¬ commentEnd <:+: line) (hline : '\n' ∉ line)
    (hr : rest.head? ≠ some '/') :
    commentPart (line ++ rest) = ((commentPart rest).1 + line.length, (commentPart rest).2) := by
  induction line with
  | nil => rfl
  | cons c line ih =>
    rw [List.mem_cons, not_or] at hline
    have hlater : ¬ commentEnd <:+: line := fun hi => h (hi.trans (List.suffix_cons c line).isInfix)
    rw [List.cons_append, commentPart_cons (Ne.symm hline.1) (no_end_at_star h hr),
      ih hlater hline.2, List.length_cons, Nat.add_assoc]

/-- A line of a comment is over at a line break, and the comment goes on, or it is over with the mark
that ends the comment. -/
inductive EndsPart : List Char → Place → List Char → Prop
  | line (rest : List Char) : EndsPart [] .blockComment ('\n' :: rest)
  | comment (rest : List Char) : EndsPart commentEnd .code rest

theorem EndsPart.commentPart (he : EndsPart more next rest) (h : ¬ commentEnd <:+: line)
    (hline : '\n' ∉ line) :
    Java.commentPart (line ++ more ++ rest) = ((line ++ more).length, next) := by
  have hhead : (more ++ rest).head? ≠ some '/' := by
    cases he <;> simp [commentEnd]
  rw [List.append_assoc, commentPart_append h hline hhead, List.length_append, Nat.add_comm]
  cases he <;> rfl

theorem reads_commentLine (he : EndsPart more next rest) (h : ¬ commentEnd <:+: line)
    (hline : '\n' ∉ line) :
    lexer.Reads .blockComment (line ++ more ++ rest) (tokenIfAny .comment (line ++ more)) next
      rest := by
  have hpart := he.commentPart h hline
  rcases hpiece : line ++ more with _ | ⟨c, piece⟩
  · obtain ⟨rfl, rfl⟩ := List.append_eq_nil_iff.mp hpiece
    cases he
    exact .done
  · rw [hpiece] at hpart
    have hc : c ≠ '\n' := by
      rintro rfl
      have hmem : '\n' ∈ line ++ more := by rw [hpiece]; exact List.mem_cons_self
      cases he <;> simp [hline, commentEnd] at hmem
    have hcut := cut_commentLine hc (piece ++ rest)
    rw [← List.cons_append, hpart] at hcut
    exact reads_one hcut

/-- The first line of a comment, with the mark in front of it. -/
theorem reads_commentStart (he : EndsPart more next rest) (h : ¬ commentEnd <:+: line)
    (hline : '\n' ∉ line) :
    lexer.Reads .code ('/' :: '*' :: (line ++ more ++ rest))
      [⟨.comment, '/' :: '*' :: (line ++ more)⟩] next rest := by
  have hcut := cut_commentStart (line ++ more ++ rest)
  rw [he.commentPart h hline] at hcut
  show lexer.Reads .code ('/' :: ('*' :: (line ++ more) ++ rest)) _ _ _
  exact reads_one hcut

end

/-! ## Block comments -/

/-- The kinds of tokens that a block comment is shown by. -/
def IsCommentPart (kind : TokenKind) : Prop :=
  kind = .comment ∨ kind = .lineBreak

theorem isCommentPart_tokenIfAny (text : List Char) :
    ∀ token ∈ tokenIfAny .comment text, IsCommentPart token.kind := by
  cases text with
  | nil => simp
  | cons c text => simp [IsCommentPart]

section

variable {line : List Char} {lines : List (List Char)}

theorem reads_break (rest : List Char) :
    lexer.Reads .blockComment ('\n' :: rest) [⟨.lineBreak, ['\n']⟩] .blockComment rest :=
  reads_char rfl

/-- From the start of a line on a comment is read up to its end. -/
theorem reads_commentLines (rest : List Char)
    (h : ∀ l ∈ line :: lines, '\n' ∉ l ∧ ¬ commentEnd <:+: l) :
    ∃ tokens, lexer.Reads .blockComment (line ++ behind '\n' lines ++ commentEnd ++ rest) tokens
        .code rest ∧ ∀ token ∈ tokens, IsCommentPart token.kind := by
  induction lines generalizing line with
  | nil =>
    obtain ⟨hline, hend⟩ := h line (by simp)
    refine ⟨_, ?_, isCommentPart_tokenIfAny (line ++ commentEnd)⟩
    have hread := reads_commentLine (.comment rest) hend hline
    simpa [behind] using hread
  | cons second lines ih =>
    obtain ⟨⟨hline, hend⟩, hlater⟩ := List.forall_mem_cons.mp h
    obtain ⟨tokens, hreads, hkinds⟩ := ih hlater
    have hfirst := reads_commentLine (.line (second ++ behind '\n' lines ++ commentEnd ++ rest)) hend
      hline
    refine ⟨tokenIfAny .comment line ++ ⟨.lineBreak, ['\n']⟩ :: tokens, ?_, ?_⟩
    · have hall := hfirst.append ((reads_break _).append hreads)
      simpa [behind_cons] using hall
    · intro token ht
      rcases List.mem_append.mp ht with ht | ht
      · exact isCommentPart_tokenIfAny line token ht
      · rcases List.mem_cons.mp ht with rfl | ht
        · exact .inr rfl
        · exact hkinds token ht

/-- A comment is read from its first mark to its last one. -/
theorem reads_blockComment (rest : List Char)
    (h : ∀ l ∈ line :: lines, '\n' ∉ l ∧ ¬ commentEnd <:+: l) :
    ∃ tokens, lexer.Reads .code ('/' :: '*' :: (line ++ behind '\n' lines ++ commentEnd ++ rest))
        tokens .code rest ∧ ∀ token ∈ tokens, IsCommentPart token.kind := by
  obtain ⟨⟨hline, hend⟩, hlater⟩ := List.forall_mem_cons.mp h
  cases lines with
  | nil =>
    have hread := reads_commentStart (.comment rest) hend hline
    refine ⟨_, by simpa [behind] using hread, ?_⟩
    simp [IsCommentPart]
  | cons second lines =>
    obtain ⟨tokens, hreads, hkinds⟩ := reads_commentLines rest hlater
    have hfirst := reads_commentStart (.line (second ++ behind '\n' lines ++ commentEnd ++ rest)) hend
      hline
    have hall := hfirst.append ((reads_break _).append hreads)
    refine ⟨_, by simpa [behind_cons] using hall, ?_⟩
    simpa [IsCommentPart] using hkinds

end

/-! ## Line comments and literals -/

section

variable {rest : List Char}

theorem reads_lineComment {text : List Char} (h : '\n' ∉ text) :
    lexer.Reads .code ('/' :: '/' :: (text ++ '\n' :: rest)) [⟨.comment, '/' :: '/' :: text⟩] .code
      ('\n' :: rest) := by
  have hline : lengthOfLine ('/' :: (text ++ '\n' :: rest)) = ('/' :: text).length := by
    rw [← List.cons_append]
    exact lengthOfLine_append (by simp [h]) (by simp)
  have hcut := cut_lineComment (text ++ '\n' :: rest)
  rw [hline] at hcut
  show lexer.Reads .code ('/' :: ('/' :: text ++ '\n' :: rest)) _ _ _
  exact reads_one hcut

theorem literalLength_append {quote : Char} (hq : quote ≠ '\n' ∧ quote ≠ '\\') {body : List Char}
    (h : LiteralBody quote body) :
    literalLength quote (body ++ quote :: rest) = body.length + 1 := by
  induction h with
  | nil =>
    rw [List.nil_append, literalLength, if_pos rfl]
    · rfl
    · exact hq.1
    · exact hq.2
  | plain hc hslash hbreak _ ih =>
    rw [List.cons_append, literalLength, if_neg hc, ih, List.length_cons]
    · exact hbreak
    · exact hslash
  | escaped hbreak _ ih =>
    rw [List.cons_append, List.cons_append, literalLength, ih]
    · rfl
    · exact hbreak

theorem reads_literal {quote : Char} (hq : quote = '"' ∨ quote = '\'') {body : List Char}
    (h : LiteralBody quote body) :
    lexer.Reads .code (quote :: (body ++ [quote] ++ rest)) [⟨.string, quote :: (body ++ [quote])⟩] .code
      rest := by
  have hplain : quote ≠ '\n' ∧ quote ≠ '\\' := by
    rcases hq with rfl | rfl <;> decide
  have hlength : literalLength quote (body ++ [quote] ++ rest) = (body ++ [quote]).length := by
    rw [List.append_assoc, List.singleton_append, literalLength_append hplain h, List.length_append,
      List.length_singleton]
  have hcut := cut_quote hq (body ++ [quote] ++ rest)
  rw [hlength] at hcut
  exact reads_one hcut

end

/-! ## Code -/

/-- What is read up to its end leaves the rest of the code as if it stood alone. -/
theorem tokens_of_reads {s : String} {text : List Char} {tokens : List Token} (r : String)
    (hs : s.toList = text) (hreturn : '\r' ∉ text)
    (h : lexer.Reads .code (text ++ withoutReturns r.toList) tokens .code (withoutReturns r.toList)) :
    Language.java.tokens (s ++ r) = tokens ++ Language.java.tokens r := by
  rw [Language.tokens_eq, Language.tokens_eq]
  show lexer.tokensFrom .code (withoutReturns (s ++ r).toList) = _
  rw [String.toList_append, withoutReturns_append, hs, withoutReturns_of_notMem hreturn,
    h.tokensFrom_eq]
  rfl

theorem tokens_blockComment {s : String} (hreturn : '\r' ∉ s.toList)
    (hend : ¬ commentEnd <:+: s.toList) (r : String) :
    ∃ comment, Language.java.tokens ("/*" ++ s ++ "*/" ++ r) = comment ++ Language.java.tokens r ∧
      (∀ token ∈ comment, IsCommentPart token.kind) ∧
      comment.flatMap (·.text) = ("/*" ++ s ++ "*/").toList := by
  obtain ⟨line, lines, -, htext, hline, hlines⟩ := exists_pieces '\n' s.toList
  have hboth : ∀ l ∈ line :: lines, '\n' ∉ l ∧ ¬ commentEnd <:+: l := by
    rw [htext] at hend
    intro l hl
    rcases List.mem_cons.mp hl with rfl | hl
    · exact ⟨hline, fun hi => hend (hi.trans (List.prefix_append _ _).isInfix)⟩
    · exact ⟨hlines l hl,
        fun hi => hend ((hi.trans (infix_behind hl _)).trans (List.suffix_append _ _).isInfix)⟩
  obtain ⟨comment, hreads, hkinds⟩ := reads_blockComment (withoutReturns r.toList) hboth
  have hcode : ("/*" ++ s ++ "*/").toList =
      '/' :: '*' :: (line ++ behind '\n' lines ++ commentEnd) := by
    rw [String.toList_append, String.toList_append, htext]
    rfl
  have hplain : '\r' ∉ '/' :: '*' :: (line ++ behind '\n' lines ++ commentEnd) := by
    rw [← hcode]
    simp [hreturn]
  refine ⟨comment, tokens_of_reads r hcode hplain hreads, hkinds, ?_⟩
  rw [hcode]
  exact (List.append_cancel_right hreads.text_eq).symm

theorem tokens_lineComment {s : String} (hreturn : '\r' ∉ s.toList) (hbreak : '\n' ∉ s.toList)
    (r : String) :
    Language.java.tokens ("//" ++ s ++ "\n" ++ r) =
      ⟨.comment, ("//" ++ s).toList⟩ :: ⟨.lineBreak, ['\n']⟩ :: Language.java.tokens r := by
  have hcode : ("//" ++ s ++ "\n").toList = '/' :: '/' :: (s.toList ++ ['\n']) := by
    rw [String.toList_append, String.toList_append]
    rfl
  have hplain : '\r' ∉ '/' :: '/' :: (s.toList ++ ['\n']) := by simp [hreturn]
  have hbreaks : lexer.Reads .code ('\n' :: withoutReturns r.toList) [⟨.lineBreak, ['\n']⟩] .code
      (withoutReturns r.toList) := reads_char rfl
  have hreads := (reads_lineComment hbreak).append hbreaks
  have htokens := tokens_of_reads r hcode hplain (by simpa using hreads)
  rw [htokens, String.toList_append]
  rfl

theorem tokens_literal {quote : Char} (hq : quote = '"' ∨ quote = '\'') {body : String}
    (hreturn : '\r' ∉ body.toList) (hbody : LiteralBody quote body.toList) (r : String) :
    Language.java.tokens (quote.toString ++ body ++ quote.toString ++ r) =
      ⟨.string, quote :: (body.toList ++ [quote])⟩ :: Language.java.tokens r := by
  have hcode : (quote.toString ++ body ++ quote.toString).toList =
      quote :: (body.toList ++ [quote]) := by
    simp
  have hplain : '\r' ∉ quote :: (body.toList ++ [quote]) := by
    rcases hq with rfl | rfl <;> simp [hreturn]
  exact tokens_of_reads r hcode hplain (reads_literal hq hbody)

/-- Comments and literals are shown as they are, whatever marks and quotes stand in them, and what
follows is read as if it stood alone. -/
theorem comments_and_literals_open_nothing (r : String) :
    (∀ s : String, '\r' ∉ s.toList → ¬ commentEnd <:+: s.toList →
      ∃ comment, Language.java.tokens ("/*" ++ s ++ "*/" ++ r) = comment ++ Language.java.tokens r ∧
        (∀ token ∈ comment, token.kind = .comment ∨ token.kind = .lineBreak) ∧
        comment.flatMap (·.text) = ("/*" ++ s ++ "*/").toList) ∧
    (∀ s : String, '\r' ∉ s.toList → '\n' ∉ s.toList →
      Language.java.tokens ("//" ++ s ++ "\n" ++ r) =
        ⟨.comment, ("//" ++ s).toList⟩ :: ⟨.lineBreak, ['\n']⟩ :: Language.java.tokens r) ∧
    ∀ (q : Char) (b : String), q = '"' ∨ q = '\'' → '\r' ∉ b.toList → LiteralBody q b.toList →
      Language.java.tokens (q.toString ++ b ++ q.toString ++ r) =
        ⟨.string, q :: (b.toList ++ [q])⟩ :: Language.java.tokens r := by
  exact ⟨fun _ hreturn hend => tokens_blockComment hreturn hend r,
    fun _ hreturn hbreak => tokens_lineComment hreturn hbreak r,
    fun _ _ hq hreturn hbody => tokens_literal hq hreturn hbody r⟩

/-- A quote and a star in a comment of two lines, the start of a comment behind another one, and one in
a literal next to a quote behind a backslash. -/
theorem quotes_in_comments_and_comments_in_literals_are_text :
    (¬ commentEnd <:+: "\"\n*".toList ∧
      ∃ comment, Language.java.tokens ("/*" ++ "\"\n*" ++ "*/" ++ "x") =
          comment ++ Language.java.tokens "x" ∧
        (∀ token ∈ comment, token.kind = .comment ∨ token.kind = .lineBreak) ∧
        comment.flatMap (·.text) = ("/*" ++ "\"\n*" ++ "*/").toList) ∧
    ('\n' ∉ "'/*".toList ∧
      Language.java.tokens ("//" ++ "'/*" ++ "\n" ++ "x") =
        ⟨.comment, "//'/*".toList⟩ :: ⟨.lineBreak, ['\n']⟩ :: Language.java.tokens "x") ∧
    (LiteralBody '"' "/*\\\"".toList ∧
      Language.java.tokens ('"'.toString ++ "/*\\\"" ++ '"'.toString ++ "x") =
        ⟨.string, '"' :: ("/*\\\"".toList ++ ['"'])⟩ :: Language.java.tokens "x") := by
  obtain ⟨hblock, hline, hliteral⟩ := comments_and_literals_open_nothing "x"
  have hend : ¬ commentEnd <:+: "\"\n*".toList := by decide
  have hbody : LiteralBody '"' "/*\\\"".toList :=
    .plain (by decide) (by decide) (by decide) (.plain (by decide) (by decide) (by decide)
      (.escaped (by decide) .nil))
  exact ⟨⟨hend, hblock _ (by decide) hend⟩, ⟨by decide, hline _ (by decide) (by decide)⟩,
    hbody, hliteral _ _ (.inl rfl) (by decide) hbody⟩

end WikiHtml.Highlight.Java
