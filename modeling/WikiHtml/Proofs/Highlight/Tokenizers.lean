-- The tokenizers take off the text what the lexers cut off it. Each loop of a tokenizer is gone through
-- once, for a cursor with any characters before it; the cursor then stands behind the token.
import WikiHtml.Proofs.Highlight.Scanner
import WikiHtml.Proofs.Highlight.Tokens

namespace WikiHtml.Highlight

open Scanner

/-- The token that a cut takes off a text, the state after it, and the cursor behind it. -/
def Cut.taken {State : Type} (cut : Cut State) (front : List Char) (c : Char) (rest : List Char) :
    Token × State × Scanner :=
  (⟨cut.kind, c :: rest.take cut.more⟩, cut.next,
    between (front ++ c :: rest.take cut.more) (rest.drop cut.more))

theorem isPrefixOf_singleton (c : Char) (rest : List Char) :
    [c].isPrefixOf rest = decide (rest.head? = some c) := by
  rcases rest with _ | ⟨d, rest⟩
  · rfl
  · by_cases h : c = d
    · simp [h]
    · have hne : (c == d) = false := by simp [h]
      simp [List.isPrefixOf_cons_cons, hne, Ne.symm h]

section Tokens

variable {State : Type} (front : List Char) (c : Char) (rest : List Char) (kind : TokenKind)
  (next : State)

theorem token_taking (n : Nat) :
    token kind next (taking (String.singleton c) (front ++ [c]) rest n) =
      (Cut.mk kind n next).taken front c rest := by
  simp [token, Token.of, taking, Cut.taken]

theorem one_between :
    (between (front ++ [c]) rest).one c kind next = (Cut.mk kind 0 next).taken front c rest := by
  rw [one, ← taking_zero, token_taking]

theorem upTo_between (stop : Char → Bool) :
    (between (front ++ [c]) rest).upTo c stop kind next =
      (Cut.mk kind (lengthUntil stop rest) next).taken front c rest := by
  rw [upTo, takeUntil, readUntil_between, token_taking]

end Tokens

/-! ## INI files and properties -/

/-- What the lexer decides, in the order in which the tokenizer tries it. -/
theorem Ini.cut_eq (expect : Ini.Expect) (c : Char) (rest : List Char) :
    Ini.cut expect c rest =
      if c = '\n' then ⟨.lineBreak, 0, .key⟩
      else if expect = .key && c = '[' then ⟨.sectionBracket, 0, .sectionName⟩
      else if expect = .sectionName && c != ']' then
        ⟨.sectionName, lengthUntil (fun c => c == ']' || c == '\n') rest, .sectionEnd⟩
      else if (expect = .sectionName || expect = .sectionEnd) && c = ']' then
        ⟨.sectionBracket, 0, .key⟩
      else if expect = .key && (c = '#' || c = ';') then ⟨.comment, lengthOfLine rest, expect⟩
      else if isBlank c then ⟨.whitespace, lengthOfBlanks rest, expect⟩
      else if expect = .key then ⟨.key, lengthUntil Ini.endsKey rest, .delimiter⟩
      else if expect = .delimiter && (c = '=' || c = ':') then ⟨.delimiter, 0, .value⟩
      else ⟨.value, lengthOfLine rest, .key⟩ := by
  cases expect <;> unfold Ini.cut <;> split <;> simp_all [isBlank]

theorem Ini.nextToken_nil (expect : Ini.Expect) (front : List Char) :
    Ini.nextToken expect (between front []) = none := by
  simp [Ini.nextToken]

/-- The tokenizer reads what the lexer cuts off. -/
theorem Ini.nextToken_between (expect : Ini.Expect) (front : List Char) (c : Char)
    (rest : List Char) :
    Ini.nextToken expect (between front (c :: rest)) =
      some ((Ini.cut expect c rest).taken front c rest) := by
  unfold Ini.nextToken
  simp only [nextChar_cons, Option.bind_eq_bind, Option.bind_some, Option.pure_def, one_between,
    upTo_between, Option.some.injEq, Ini.cut_eq]
  split_ifs <;> rfl

theorem Properties.nextToken_nil (expect : Properties.Expect) (front : List Char) :
    Properties.nextToken expect (between front []) = none := by
  simp [Properties.nextToken]

/-- The tokenizer reads what the lexer cuts off. -/
theorem Properties.nextToken_between (expect : Properties.Expect) (front : List Char) (c : Char)
    (rest : List Char) :
    Properties.nextToken expect (between front (c :: rest)) =
      some ((Properties.cut expect c rest).taken front c rest) := by
  unfold Properties.nextToken Properties.isCommentStart Properties.cut Properties.startsComment
  simp only [nextChar_cons, Option.bind_eq_bind, Option.bind_some, Option.pure_def, one_between,
    upTo_between, Option.some.injEq, peek_between]
  cases expect <;> split_ifs <;> first | rfl | simp_all

/-! ## Java -/

namespace Java

variable (text : String) (front : List Char) (c : Char) (rest : List Char)

theorem blockComment_nil :
    blockComment text (between front []) = (text, .blockComment, between front []) := by
  rw [blockComment]
  split <;> simp_all

theorem blockComment_cons :
    blockComment text (between front (c :: rest)) =
      if c = '\n' then (text, .blockComment, between front (c :: rest))
      else if c = '*' && ['/'].isPrefixOf rest then
        ((text.push c).push '/', .code, ((between (front ++ [c]) rest).eat "/").2)
      else blockComment (text.push c) (between (front ++ [c]) rest) := by
  rw [blockComment]
  split
  · simp_all
  · rename_i hnext
    obtain ⟨rfl, rfl⟩ := nextChar_cons_inj hnext
    rw [unread_between, eat_fst]
    rfl

/-- The loop over a line of a block comment reads its part of the line. -/
theorem blockComment_between :
    blockComment text (between front rest) =
      let read := taking text front rest (commentPart rest).1
      (read.1, (commentPart rest).2, read.2) := by
  fun_induction commentPart rest generalizing front text with
  | case1 => simp [blockComment_nil]
  | case2 rest => simp [blockComment_cons]
  | case3 rest =>
    have heat : (between (front ++ ['*']) ('/' :: rest)).eat "/" =
        (true, between (front ++ ['*'] ++ ['/']) rest) := eat_append _ rest ['/'] rfl
    rw [blockComment_cons, if_neg (by decide), if_pos (by simp), heat, ← taking_push,
      ← taking_push, taking_zero]
  | case4 c rest hbreak hend part ih =>
    have hslash : ¬(c = '*' && ['/'].isPrefixOf rest) = true := by
      rw [Bool.and_eq_true, decide_eq_true_eq, List.isPrefixOf_iff_prefix]
      rintro ⟨hc, tail, rfl⟩
      exact hend tail hc rfl
    rw [blockComment_cons, if_neg hbreak, if_neg hslash, ih]
    dsimp only
    rw [taking_push]

theorem literal_nil (quote : Char) :
    literal quote text (between front []) = (text, between front []) := by
  rw [literal]
  split <;> simp_all

theorem literal_cons (quote : Char) :
    literal quote text (between front (c :: rest)) =
      if c = '\n' then (text, between front (c :: rest))
      else if c = '\\' then
        match rest with
        | [] => literal quote (text.push c) (between (front ++ [c]) [])
        | d :: rest =>
          if d = '\n' then literal quote (text.push c) (between (front ++ [c]) (d :: rest))
          else literal quote ((text.push c).push d) (between (front ++ [c] ++ [d]) rest)
      else if c = quote then (text.push c, between (front ++ [c]) rest)
      else literal quote (text.push c) (between (front ++ [c]) rest) := by
  rw [literal]
  split
  · simp_all
  · rename_i hnext
    obtain ⟨rfl, rfl⟩ := nextChar_cons_inj hnext
    rw [unread_between, peek_between]
    refine ite_congr rfl (fun _ => rfl) fun _ => ite_congr rfl (fun _ => ?_) fun _ => rfl
    rcases rest with _ | ⟨d, rest⟩
    · rw [if_neg (by simp)]
      split <;> simp_all
    · refine ite_congr (by simp) (fun _ => rfl) fun _ => ?_
      split
      · simp_all
      · rename_i hescaped
        obtain ⟨rfl, rfl⟩ := nextChar_cons_inj hescaped
        rfl

/-- The loop over a literal reads what belongs to it. -/
theorem literal_between (quote : Char) :
    literal quote text (between front rest) =
      taking text front rest (literalLength quote rest) := by
  fun_induction literalLength quote rest generalizing front text with
  | case1 => simp [literal_nil]
  | case2 rest => simp [literal_cons]
  | case3 => simp [literal_cons, literal_nil, taking_one]
  | case4 rest => simp [literal_cons, taking_one]
  | case5 c tail hbreak ih =>
    rw [literal_cons, if_neg (by decide), if_pos rfl]
    dsimp only
    rw [if_neg hbreak, ih, taking_push, taking_push]
  | case6 rest hbreak hescape => 
    rw [literal_cons, if_neg hbreak, if_neg hescape, if_pos rfl, taking_one]
  | case7 c rest hbreak hescape hquote ih =>
    rw [literal_cons, if_neg hbreak, if_neg hescape, if_neg hquote, ih, taking_push]

/-- A line of a block comment, from a character that was put back. -/
theorem commentToken_unread (hbreak : c ≠ '\n') :
    commentToken (blockComment "" (between front (c :: rest))) =
      (Cut.mk .comment ((commentPart (c :: rest)).1 - 1) (commentPart (c :: rest)).2).taken front c
        rest := by
  have hpos : (commentPart (c :: rest)).1 = (commentPart (c :: rest)).1 - 1 + 1 := by
    have : (commentPart (c :: rest)).1 ≠ 0 := by
      unfold commentPart
      split <;> simp_all
    omega
  rw [blockComment_between, hpos, ← taking_push, ← token_taking]
  rfl

/-- A line of a block comment that starts there. -/
theorem commentToken_mark :
    commentToken (blockComment "/*" (between (front ++ ['/'] ++ ['*']) rest)) =
      (Cut.mk .comment ((commentPart rest).1 + 1) (commentPart rest).2).taken front '/'
        ('*' :: rest) := by
  have hmark : "/*" = (String.singleton '/').push '*' := by decide
  rw [blockComment_between, hmark, taking_push, ← token_taking]
  rfl

theorem nextToken_nil (place : Place) : nextToken place (between front []) = none := by
  simp [nextToken]

/-- The tokenizer reads what the lexer cuts off. -/
theorem nextToken_between (place : Place) :
    nextToken place (between front (c :: rest)) = some ((cut place c rest).taken front c rest) := by
  unfold nextToken cut
  simp only [nextChar_cons, Option.bind_eq_bind, Option.bind_some, Option.pure_def, one_between,
    upTo_between, Option.some.injEq, peek_between, unread_between, eat_fst,
    apply_ite (Cut.taken · front c rest)]
  refine ite_congr rfl (fun _ => rfl) fun hbreak => ?_
  refine ite_congr rfl (fun _ => commentToken_unread front c rest hbreak) fun hplace => ?_
  obtain rfl : place = .code := by cases place <;> simp_all
  refine ite_congr ?_ (fun hmark => ?_) fun _ => ?_
  · exact congrArg (fun found => (decide (c = '/') && found) = true) (isPrefixOf_singleton '*' rest)
  · rw [Bool.and_eq_true, decide_eq_true_eq, decide_eq_true_eq] at hmark
    obtain ⟨rfl, hhead⟩ := hmark
    obtain ⟨rest, rfl⟩ := List.head?_eq_some_iff.mp hhead
    have heat : (between (front ++ ['/']) ('*' :: rest)).eat "*" =
        (true, between (front ++ ['/'] ++ ['*']) rest) := eat_append _ rest ['*'] rfl
    rw [heat]
    exact commentToken_mark front rest
  refine ite_congr rfl (fun _ => rfl) fun _ => ?_
  refine ite_congr rfl (fun _ => ?_) fun _ => ?_
  · rw [literal_between, token_taking]
  refine ite_congr rfl (fun _ => ?_) fun _ => rfl
  have hword : ((between (front ++ [c]) rest).takeUntil c (!isWordChar ·)).1 =
      String.ofList (c :: rest.take (lengthUntil (!isWordChar ·) rest)) := by
    apply String.toList_inj.mp
    simp [takeUntil, readUntil_between, taking]
  rw [← upTo_between, upTo, token, hword]

end Java

/-! ## XML -/

namespace Xml

variable (text : String) (front : List Char) (c : Char) (rest : List Char)

theorem comment_nil : comment text (between front []) = (text, .comment, between front []) := by
  rw [comment]
  split <;> simp_all

theorem comment_cons :
    comment text (between front (c :: rest)) =
      if c = '\n' then (text, .comment, between front (c :: rest))
      else if c = '-' && ['-'].isPrefixOf rest then
        let s := ((between (front ++ [c]) rest).eat "-").2
        (if (s.eat ">").1 then ((text.push c).push '-').push '>' else (text.push c).push '-', .text,
          (s.eat ">").2)
      else comment (text.push c) (between (front ++ [c]) rest) := by
  rw [comment]
  split
  · simp_all
  · rename_i hnext
    obtain ⟨rfl, rfl⟩ := nextChar_cons_inj hnext
    rw [unread_between, eat_fst]
    rfl

/-- The loop over a line of a comment reads its part of the line. -/
theorem comment_between :
    comment text (between front rest) =
      let read := taking text front rest (commentPart rest).1
      (read.1, (commentPart rest).2, read.2) := by
  have heat (front rest : List Char) : (between (front ++ ['-']) ('-' :: rest)).eat "-" =
      (true, between (front ++ ['-'] ++ ['-']) rest) := eat_append _ rest ['-'] rfl
  fun_induction commentPart rest generalizing front text with
  | case1 => simp [comment_nil]
  | case2 rest => simp [comment_cons]
  | case3 rest =>
    have hclose : (between (front ++ ['-'] ++ ['-']) ('>' :: rest)).eat ">" =
        (true, between (front ++ ['-'] ++ ['-'] ++ ['>']) rest) := eat_append _ rest ['>'] rfl
    rw [comment_cons, if_neg (by decide), if_pos (by simp), heat, ← taking_push, ← taking_push,
      ← taking_push, taking_zero]
    dsimp only
    rw [hclose]
    rfl
  | case4 rest hopen =>
    have hclose : (between (front ++ ['-'] ++ ['-']) rest).eat ">" =
        (false, between (front ++ ['-'] ++ ['-']) rest) := by
      refine eat_other _ _ ?_
      rw [← Bool.not_eq_true, List.isPrefixOf_iff_prefix]
      rintro ⟨tail, rfl⟩
      exact hopen tail rfl
    rw [comment_cons, if_neg (by decide), if_pos (by simp), heat, ← taking_push, ← taking_push,
      taking_zero]
    dsimp only
    rw [hclose]
    rfl
  | case5 c rest hbreak hclosed hopen part ih =>
    have hdash : ¬(c = '-' && ['-'].isPrefixOf rest) = true := by
      rw [Bool.and_eq_true, decide_eq_true_eq, List.isPrefixOf_iff_prefix]
      rintro ⟨hc, tail, rfl⟩
      exact hopen tail hc rfl
    rw [comment_cons, if_neg hbreak, if_neg hdash, ih]
    dsimp only
    rw [taking_push]

theorem cdataText_nil : cdataText text (between front []) = (text, between front []) := by
  rw [cdataText]
  split_ifs
  · rfl
  · split <;> simp_all

theorem cdataText_cons :
    cdataText text (between front (c :: rest)) =
      if c = '\n' || "]]>".toList.isPrefixOf (c :: rest) then (text, between front (c :: rest))
      else cdataText (text.push c) (between (front ++ [c]) rest) := by
  rw [cdataText]
  refine ite_congr (by simp) (fun _ => rfl) fun _ => ?_
  split
  · simp_all
  · rename_i hnext
    obtain ⟨rfl, rfl⟩ := nextChar_cons_inj hnext
    rfl

/-- The loop over a line of a CDATA section reads up to its end mark. -/
theorem cdataText_between :
    cdataText text (between front rest) = taking text front rest (cdataLength rest) := by
  fun_induction cdataLength rest generalizing front text with
  | case1 => simp [cdataText_nil]
  | case2 rest => simp [cdataText_cons]
  | case3 rest => rw [cdataText_cons, if_pos (by simp), taking_zero]
  | case4 c rest hbreak hend ih =>
    have hgoes : ¬(c = '\n' || "]]>".toList.isPrefixOf (c :: rest)) = true := by
      rw [Bool.or_eq_true, decide_eq_true_eq, List.isPrefixOf_iff_prefix]
      rintro (hc | ⟨tail, htail⟩)
      · exact hbreak hc
      · obtain ⟨rfl, rfl⟩ := List.cons.inj htail
        exact hend tail rfl rfl
    rw [cdataText_cons, if_neg hgoes, ih, taking_push]

theorem quoted_nil (quote : Char) :
    quoted quote text (between front []) = (text, between front []) := by
  rw [quoted]
  split <;> simp_all

theorem quoted_cons (quote : Char) :
    quoted quote text (between front (c :: rest)) =
      if c = '\n' then (text, between front (c :: rest))
      else if c = quote then (text.push c, between (front ++ [c]) rest)
      else quoted quote (text.push c) (between (front ++ [c]) rest) := by
  rw [quoted]
  split
  · simp_all
  · rename_i hnext
    obtain ⟨rfl, rfl⟩ := nextChar_cons_inj hnext
    rw [unread_between]

/-- The loop over a quoted value reads what belongs to it. -/
theorem quoted_between (quote : Char) :
    quoted quote text (between front rest) = taking text front rest (quotedLength quote rest) := by
  fun_induction quotedLength quote rest generalizing front text with
  | case1 => simp [quoted_nil]
  | case2 rest => simp [quoted_cons]
  | case3 rest hbreak => rw [quoted_cons, if_neg hbreak, if_pos rfl, taking_one]
  | case4 c rest hbreak hquote ih =>
    rw [quoted_cons, if_neg hbreak, if_neg hquote, ih, taking_push]

theorem reference_nil : reference text (between front []) = (text, between front []) := by
  rw [reference]
  split <;> simp_all

theorem reference_cons :
    reference text (between front (c :: rest)) =
      if Unicode.isWhiteSpace c then (text, between front (c :: rest))
      else if c = ';' then (text.push c, between (front ++ [c]) rest)
      else reference (text.push c) (between (front ++ [c]) rest) := by
  rw [reference]
  split
  · simp_all
  · rename_i hnext
    obtain ⟨rfl, rfl⟩ := nextChar_cons_inj hnext
    rw [unread_between]

/-- The loop over a reference reads what belongs to it. -/
theorem reference_between :
    reference text (between front rest) = taking text front rest (referenceLength rest) := by
  fun_induction referenceLength rest generalizing front text with
  | case1 => simp [reference_nil]
  | case2 rest => rw [reference_cons, if_neg (by decide), if_pos rfl, taking_one]
  | case3 c rest hend hblank => rw [reference_cons, if_pos hblank, taking_zero]
  | case4 c rest hend hblank ih => rw [reference_cons, if_neg hblank, if_neg hend, ih, taking_push]

/-- A value of an attribute, from its first character. -/
theorem attributeValue_between :
    attributeValue c (between (front ++ [c]) rest) =
      taking (String.singleton c) (front ++ [c]) rest
        (if c = '"' || c = '\'' then quotedLength c rest else lengthUntil endsBareValue rest) := by
  have hstop : (fun c => c == '/' || c == '?' || c == '>' || c == '\n' || Unicode.isWhiteSpace c) =
      endsBareValue := by
    funext c
    by_cases hc : c = '\n'
    · subst hc
      decide
    · have hbreak : (c == '\n') = false := beq_eq_false_iff_ne.mpr hc
      simp [endsBareValue, hbreak]
  unfold attributeValue
  split_ifs
  · exact quoted_between _ _ _ c
  · rw [hstop, takeUntil, readUntil_between]

/-- A line of a comment, from a character that was put back. -/
theorem commentToken_unread (hbreak : c ≠ '\n') :
    commentToken (comment "" (between front (c :: rest))) =
      (Cut.mk .comment ((commentPart (c :: rest)).1 - 1) (commentPart (c :: rest)).2).taken front c
        rest := by
  have hpos : (commentPart (c :: rest)).1 = (commentPart (c :: rest)).1 - 1 + 1 := by
    have : (commentPart (c :: rest)).1 ≠ 0 := by
      unfold commentPart
      split <;> simp_all
    omega
  rw [comment_between, hpos, ← taking_push, ← token_taking]
  rfl

/-- A line of a comment that starts there. -/
theorem commentToken_mark :
    commentToken (comment "<!--" (between (front ++ ['<'] ++ ['!', '-', '-']) rest)) =
      (Cut.mk .comment ((commentPart rest).1 + 3) (commentPart rest).2).taken front '<'
        ('!' :: '-' :: '-' :: rest) := by
  have hmark : "<!--" = (((String.singleton '<').push '!').push '-').push '-' := by decide
  have hfront : front ++ ['<'] ++ ['!', '-', '-'] = front ++ ['<'] ++ ['!'] ++ ['-'] ++ ['-'] := by
    simp
  rw [comment_between, hmark, hfront, taking_push, taking_push, taking_push, ← token_taking]
  rfl

/-- A line of a CDATA section, or its end mark, from a character that was put back. -/
theorem cdata_unread (hbreak : c ≠ '\n') :
    cdata (between front (c :: rest)) =
      (if "]]>".toList.isPrefixOf (c :: rest) then Cut.mk .tag 2 Expect.text
        else ⟨.text, cdataLength rest, .cdata⟩).taken front c rest := by
  have hmark : "]]>".toList = [']', ']', '>'] := by decide
  unfold cdata
  rw [eat_fst, hmark]
  by_cases hend : [']', ']', '>'].isPrefixOf (c :: rest)
  · obtain ⟨rest, hrest⟩ := List.isPrefixOf_iff_prefix.mp hend
    obtain ⟨rfl, rfl⟩ := List.cons.inj hrest
    have heat : (between front (']' :: ']' :: '>' :: rest)).eat "]]>" =
        (true, between (front ++ [']', ']', '>']) rest) := eat_append _ rest [']', ']', '>'] hmark
    rw [if_pos hend, if_pos hend]
    refine congrArg (fun s => (Token.of .tag "]]>", Expect.text, s)) (congrArg Prod.snd heat)
  · have hlength : cdataLength (c :: rest) = cdataLength rest + 1 := by
      rw [cdataLength]
      · exact hbreak
      · rintro tail rfl rfl
        simp at hend
    rw [if_neg hend, if_neg hend, cdataText_between, hlength, ← taking_push, ← token_taking]
    rfl

/-- The tokenizer reads what the lexer cuts off, outside comments and CDATA sections. -/
theorem nextToken_plain (expect : Expect) (hbreak : c ≠ '\n') (hmark : c ≠ '<')
    (hcomment : expect ≠ .comment) (hcdata : expect ≠ .cdata) :
    nextToken expect (between front (c :: rest)) =
      some ((cutPlain expect c rest).taken front c rest) := by
  unfold nextToken cutPlain
  simp only [nextChar_cons, Option.bind_eq_bind, Option.bind_some, Option.pure_def, one_between,
    upTo_between, Option.some.injEq, hbreak, hmark, hcomment, hcdata, if_false, decide_false,
    Bool.false_and, Bool.false_eq_true, attributeValue_between, reference_between, token_taking,
    apply_ite (Cut.taken · front c rest)]
  iterate 4 refine ite_congr rfl (fun _ => rfl) fun _ => ?_
  -- where the name of an attribute is expected, one is expected again
  refine ite_congr rfl (fun hname => ?_) fun _ => rfl
  rw [Bool.and_eq_true, decide_eq_true_eq] at hname
  rw [hname.1]

/-- The tokenizer reads what the lexer cuts off at a `<`, outside comments. -/
theorem nextToken_mark (expect : Expect) (hcomment : expect ≠ .comment) :
    nextToken expect (between front ('<' :: rest)) =
      some ((cutMark expect rest).taken front '<' rest) := by
  have hopen : "!--".toList = ['!', '-', '-'] := by decide
  have hcdata : "![CDATA[".toList = ['!', '[', 'C', 'D', 'A', 'T', 'A', '['] := by decide
  have hend : ¬"]]>".toList.isPrefixOf ('<' :: rest) = true := by simp
  have hbreak : '<' ≠ '\n' := by decide
  unfold nextToken cutMark
  simp only [nextChar_cons, Option.bind_eq_bind, Option.bind_some, Option.pure_def, one_between,
    Option.some.injEq, hbreak, hcomment, if_false, decide_true, Bool.true_and, if_true, eat_fst,
    unread_between, cdata_unread front '<' rest hbreak, if_neg hend,
    apply_ite (Cut.taken · front '<' rest)]
  refine ite_congr rfl (fun hmark => ?_) fun _ => ?_
  · rw [hopen, List.isPrefixOf_iff_prefix] at hmark
    obtain ⟨rest, rfl⟩ := hmark
    rw [eat_append _ rest _ hopen]
    exact commentToken_mark front rest
  refine ite_congr rfl (fun _ => rfl) fun _ => ?_
  refine ite_congr rfl (fun hmark => ?_) fun _ => rfl
  rw [hcdata, List.isPrefixOf_iff_prefix] at hmark
  obtain ⟨rest, rfl⟩ := hmark
  rw [eat_append _ rest _ hcdata]
  simp [token, Token.of, Cut.taken]

theorem nextToken_nil (expect : Expect) : nextToken expect (between front []) = none := by
  simp [nextToken]

/-- The tokenizer reads what the lexer cuts off. -/
theorem nextToken_between (expect : Expect) :
    nextToken expect (between front (c :: rest)) =
      some ((cut expect c rest).taken front c rest) := by
  unfold cut
  by_cases hbreak : c = '\n'
  · subst hbreak
    rw [if_pos rfl, ← one_between]
    simp [nextToken]
  rw [if_neg hbreak]
  by_cases hcomment : expect = .comment
  · subst hcomment
    rw [if_pos rfl, ← commentToken_unread front c rest hbreak]
    simp [nextToken, hbreak]
  rw [if_neg hcomment]
  by_cases hmark : c = '<'
  · subst hmark
    rw [if_pos rfl, nextToken_mark front rest expect hcomment]
  rw [if_neg hmark]
  by_cases hcdata : expect = .cdata
  · subst hcdata
    rw [if_pos rfl, ← cdata_unread front c rest hbreak]
    simp [nextToken, hbreak, hmark]
  rw [if_neg hcdata, nextToken_plain front c rest expect hbreak hmark hcomment hcdata]

end Xml

/-! ## YAML -/

namespace Yaml

/-- The state of the lexer where the tokenizer stands behind some characters. -/
def Reading.behind (r : Reading) (front : List Char) : State :=
  ⟨r.expect, columnAfter front, r.keyIndent⟩

/-- What the tokenizer keeps of a cut. -/
def reading (cut : Cut State) : Cut Reading :=
  ⟨cut.kind, cut.more, ⟨cut.next.expect, cut.next.keyColumn⟩⟩

theorem isDeeper_eq (keyIndent column : Nat) (text : List Char) :
    isDeeper keyIndent column text = (firstColumn column text).all (keyIndent < ·) := by
  fun_induction isDeeper keyIndent column text with
  | case1 => simp [firstColumn]
  | case2 column rest ih => simpa [firstColumn] using ih
  | case3 column c rest hbreak hblank ih => simpa [firstColumn, hbreak, hblank] using ih
  | case4 column c rest hbreak hblank => simp [firstColumn, hbreak, hblank]

theorem blockContinues_eq (keyIndent : Nat) (afterLine : List Char) :
    blockContinues keyIndent afterLine = isDeeper keyIndent 0 (afterLine.drop 1) := by
  rw [isDeeper_eq, blockContinues, List.drop_one]
  cases firstColumn 0 afterLine.tail <;> rfl

variable (r : Reading) (front : List Char) (c : Char) (rest : List Char)

theorem multilineText_between :
    multilineText r c (between (front ++ [c]) rest) =
      (reading (cutBlockLine (r.behind front) rest)).taken front c rest := by
  have hstop : lengthUntil isBreak rest = lengthOfLine rest := rfl
  simp only [multilineText, takeUntil, readUntil_between, hstop]
  simp [taking, Token.of, Cut.taken, reading, cutBlockLine, State.advance, blockContinues_eq,
    Reading.behind]

theorem nextToken_nil : nextToken r (between front []) = none := by
  simp [nextToken]

/-- The tokenizer reads what the lexer cuts off. -/
theorem nextToken_between :
    nextToken r (between front (c :: rest)) =
      some ((reading (cut (r.behind front) c rest)).taken front c rest) := by
  have hdashes : "--".toList = ['-', '-'] := by decide
  unfold nextToken cut
  simp only [nextChar_cons, Option.bind_eq_bind, Option.bind_some, Option.pure_def, one_between,
    upTo_between, Option.some.injEq, eat_fst, multilineText_between r, column_between,
    columnAfter_snoc, apply_ite (fun cut => (reading cut).taken front c rest)]
  refine ite_congr rfl (fun _ => ?_) fun hbreak => ?_
  · cases hexpect : r.expect <;> simp [reading, Reading.behind, hexpect]
  refine ite_congr rfl (fun hdash => ite_congr rfl (fun hmark => ?_) fun _ => ?_) fun _ => ?_
  · rw [hdashes, List.isPrefixOf_iff_prefix] at hmark
    obtain ⟨rest, rfl⟩ := hmark
    rw [eat_append _ rest _ hdashes]
    rw [Bool.and_eq_true, decide_eq_true_eq, decide_eq_true_eq] at hdash
    simp [token, Token.of, Cut.taken, reading, Reading.behind, State.advance, hdash.2]
  · rw [Bool.and_eq_true, decide_eq_true_eq] at hdash
    simp [reading, Reading.behind, State.advance, ← hdash.1]
  refine ite_congr (by rw [Bool.or_comm]; rfl) (fun _ => rfl) fun _ => ?_
  refine ite_congr rfl (fun _ => rfl) fun _ => ?_
  refine ite_congr rfl (fun _ => rfl) fun _ => ?_
  refine ite_congr rfl (fun _ => rfl) fun _ => ?_
  refine ite_congr rfl (fun _ => ?_) fun _ => ?_
  · rw [if_neg hbreak]
    rfl
  exact ite_congr rfl (fun _ => rfl) fun _ => rfl

theorem cut_advances (s : State) (hc : c ≠ '\n') :
    (cut s c rest).more ≤ rest.length ∧
      (cut s c rest).next.column = s.column + (cut s c rest).more + 1 := by
  have hlength (stop : Char → Bool) : lengthUntil stop rest ≤ rest.length :=
    (List.takeWhile_prefix _).length_le
  unfold cut cutBlockLine State.advance
  split
  · contradiction
  split
  · split
    · rename_i hmark
      exact ⟨(List.isPrefixOf_iff_prefix.mp hmark).length_le, rfl⟩
    · exact ⟨Nat.zero_le _, rfl⟩
  split_ifs
  all_goals exact ⟨by first | exact hlength _ | exact Nat.zero_le _, rfl⟩

/-- The column of a state is that of the next character. -/
theorem column_cut {s : State} {seen : List Char} (hs : s.column = columnAfter seen) :
    (cut s c rest).next.column = columnAfter (seen ++ c :: rest.take (cut s c rest).more) := by
  have hkeeps := cut_keepsLines s c rest
  by_cases hc : c = '\n'
  · subst hc
    rw [hkeeps.alone rfl, List.take_zero, columnAfter_snoc]
    rfl
  · have hwithin : '\n' ∉ c :: rest.take (cut s c rest).more := by
      rw [List.mem_cons, not_or]
      exact ⟨Ne.symm hc, hkeeps.within⟩
    obtain ⟨hle, hcolumn⟩ := cut_advances c rest s hc
    rw [columnAfter_append seen hwithin, hcolumn, hs, List.length_cons, List.length_take_of_le hle,
      Nat.add_assoc]

end Yaml

end WikiHtml.Highlight
