-- Whole runs of the tokenizers. A tokenizer keeps in step with its lexer token by token, so it comes to the
-- end of every code block, and has then read all of it.
import WikiHtml.Proofs.Highlight.Tokenizers

namespace WikiHtml.Highlight

open Scanner

/-- A tokenizer in step with a lexer: where the cursor stands between some characters and the others, it
reads the token that the lexer cuts off the others, and the cursor then stands behind that token. What is
the same for the two may depend on what was read. -/
structure InStep (t : Tokenizer) (l : Lexer) (same : t.State → List Char → l.State → Prop) :
    Prop where
  start : same t.start [] l.start
  ends : ∀ r front, t.nextToken r (between front []) = none
  step : ∀ r front s c rest, same r front s →
    ∃ r', t.nextToken r (between front (c :: rest)) =
        some (⟨(l.cut s c rest).kind, c :: rest.take (l.cut s c rest).more⟩, r',
          between (front ++ c :: rest.take (l.cut s c rest).more)
            (rest.drop (l.cut s c rest).more)) ∧
      same r' (front ++ c :: rest.take (l.cut s c rest).more) (l.cut s c rest).next

/-! ## Runs -/

section Runs

variable {t : Tokenizer}

theorem run_token {p : t.Progress} {token : Token} {state : t.State} {scanner : Scanner}
    (h : t.nextToken p.state p.scanner = some (token, state, scanner)) :
    t.run p = t.run ⟨state, scanner, p.tokens.push token⟩ := by
  have hturn : t.turn p = some (.inl ⟨state, scanner, p.tokens.push token⟩) := by
    rw [Tokenizer.turn, h]
  rw [Tokenizer.run, repeatM_eq_of_monadTail, repeatM.body, hturn]
  rfl

theorem run_end {p : t.Progress} (h : t.nextToken p.state p.scanner = none) :
    t.run p = some p.tokens := by
  have hturn : t.turn p = some (.inr p.tokens) := by rw [Tokenizer.turn, h]
  rw [Tokenizer.run, repeatM_eq_of_monadTail, repeatM.body, hturn]
  rfl

/-- From where the two are in step, the tokenizer reads on to the end, and the tokens of the lexer. -/
theorem InStep.run_eq {l : Lexer} {same : t.State → List Char → l.State → Prop}
    (h : InStep t l same) {r : t.State} {front rest : List Char} {s : l.State}
    (hs : same r front s) (tokens : Array Token) :
    t.run ⟨r, between front rest, tokens⟩ = some (tokens ++ l.tokensFrom s rest) := by
  induction s, rest using Lexer.tokensFrom.induct l generalizing r front tokens with
  | case1 s =>
    rw [tokensFrom_nil]
    simp [run_end (p := ⟨r, between front [], tokens⟩) (h.ends r front)]
  | case2 s c rest cut =>
    rename_i ih
    obtain ⟨r', htoken, hs'⟩ := h.step r front s c rest hs
    rw [run_token (p := ⟨r, between front (c :: rest), tokens⟩) htoken, ih hs', tokensFrom_cons]
    simp [cut]

theorem InStep.tokens?_eq {l : Lexer} {same : t.State → List Char → l.State → Prop}
    (h : InStep t l same) (code : String) : t.tokens? code = some (l.tokens code.toList) := by
  rw [Tokenizer.tokens?, new_eq, h.run_eq h.start]
  simp [Lexer.tokens]

end Runs

/-! ## The five tokenizers -/

section

variable {l : Lexer} {start : l.State}
  {nextToken : l.State → Scanner → Option (Token × l.State × Scanner)}

/-- A tokenizer that has the states of its lexer. -/
theorem inStep_of_taken (hstart : start = l.start)
    (hends : ∀ s front, nextToken s (between front []) = none)
    (h : ∀ s front c rest,
      nextToken s (between front (c :: rest)) = some ((l.cut s c rest).taken front c rest)) :
    InStep ⟨l.State, start, nextToken⟩ l fun r _ s => r = s := by
  refine ⟨hstart, hends, ?_⟩
  rintro r front s c rest rfl
  exact ⟨_, h r front c rest, rfl⟩

end

theorem Ini.inStep : InStep Ini.tokenizer Ini.lexer fun r _ s => r = s :=
  inStep_of_taken (l := Ini.lexer) rfl Ini.nextToken_nil Ini.nextToken_between

theorem Java.inStep : InStep Java.tokenizer Java.lexer fun r _ s => r = s :=
  inStep_of_taken (l := Java.lexer) rfl (fun s front => Java.nextToken_nil front s)
    fun s front c rest => Java.nextToken_between front c rest s

theorem Properties.inStep : InStep Properties.tokenizer Properties.lexer fun r _ s => r = s :=
  inStep_of_taken (l := Properties.lexer) rfl Properties.nextToken_nil
    Properties.nextToken_between

theorem Xml.inStep : InStep Xml.tokenizer Xml.lexer fun r _ s => r = s :=
  inStep_of_taken (l := Xml.lexer) rfl (fun s front => Xml.nextToken_nil front s)
    fun s front c rest => Xml.nextToken_between front c rest s

/-- The lexer of YAML counts the columns that its tokenizer reads off the cursor. -/
theorem Yaml.inStep :
    InStep Yaml.tokenizer Yaml.lexer fun r front s => s = Yaml.Reading.behind r front := by
  refine ⟨rfl, Yaml.nextToken_nil, ?_⟩
  rintro r front s c rest rfl
  refine ⟨_, Yaml.nextToken_between r front c rest, ?_⟩
  have hcolumn := Yaml.column_cut c rest (show (Yaml.Reading.behind r front).column = _ from rfl)
  exact congrArg (fun column => Yaml.State.mk _ column _) hcolumn

theorem tokens?_eq (language : Language) (code : String) :
    language.tokenizer.tokens? code = some (language.lexer.tokens code.toList) := by
  cases language with
  | ini => exact Ini.inStep.tokens?_eq code
  | java => exact Java.inStep.tokens?_eq code
  | properties => exact Properties.inStep.tokens?_eq code
  | xml => exact Xml.inStep.tokens?_eq code
  | yaml => exact Yaml.inStep.tokens?_eq code

/-- The tokens of a code block are those that the lexer of its language cuts it into. -/
theorem Language.tokens_eq (language : Language) (code : String) :
    language.tokens code = language.lexer.tokens code.toList := by
  rw [Language.tokens, tokens?_eq, Option.getD_some]

/-- Every tokenizer comes to an end. The texts of its tokens, one after the other, are the code without
its carriage returns. There are no more tokens than characters, none is empty, and a line break is always a
token of its own. -/
theorem tokenizers_end_with_the_code_cut_at_line_breaks (language : Language) (code : String) :
    ∃ tokens, language.tokenizer.tokens? code = some tokens ∧
      tokens.flatMap (·.text) = code.toList.filter (· != '\r') ∧ tokens.length ≤ code.length ∧
      ∀ token ∈ tokens, token.text ≠ [] ∧ ('\n' ∈ token.text ↔ token.kind = .lineBreak) ∧
        (token.kind = .lineBreak → token.text = ['\n']) := by
  refine ⟨_, tokens?_eq language code, ?_⟩
  have htext : (language.lexer.tokens code.toList).flatMap (·.text) =
      code.toList.filter (· != '\r') := tokensFrom_text language.lexer _ _
  have hkeeps : ∀ token ∈ language.lexer.tokens code.toList, token.KeepsLines :=
    tokensFrom_keepsLines (cut_keepsLines language) _ _
  refine ⟨htext, ?_, fun token ht => ?_⟩
  · calc (language.lexer.tokens code.toList).length
        ≤ ((language.lexer.tokens code.toList).flatMap (·.text)).length :=
          length_le_of_nonempty fun token ht => (hkeeps token ht).nonempty
      _ ≤ code.toList.length := by
          rw [htext]
          exact List.length_filter_le _ _
      _ = code.length := String.length_toList
  · obtain ⟨hnonempty, hbreak, halone⟩ := hkeeps token ht
    exact ⟨hnonempty, hbreak, halone⟩

end WikiHtml.Highlight
