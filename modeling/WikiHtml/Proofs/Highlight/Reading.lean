-- What a lexer reads of a text, token by token, with what is left of it and the state there. A token
-- is decided with all that is left in view, so the text of the tokens alone does not tell how it is cut.
import WikiHtml.Proofs.Highlight.Runs

namespace WikiHtml.Highlight

/-- The lexer reads the tokens at the start of a text, and comes to a state and to what is left. -/
inductive Lexer.Reads (l : Lexer) : l.State → List Char → List Token → l.State → List Char → Prop
  | done {s : l.State} {text : List Char} : l.Reads s text [] s text
  | token {s s' : l.State} {c : Char} {rest left : List Char} {tokens : List Token} :
      l.Reads (l.cut s c rest).next (rest.drop (l.cut s c rest).more) tokens s' left →
      l.Reads s (c :: rest)
        (⟨(l.cut s c rest).kind, c :: rest.take (l.cut s c rest).more⟩ :: tokens) s' left

section

variable {l : Lexer} {s s' s'' : l.State} {text left left' : List Char} {tokens tokens' : List Token}

theorem Lexer.Reads.append (h : l.Reads s text tokens s' left)
    (h' : l.Reads s' left tokens' s'' left') : l.Reads s text (tokens ++ tokens') s'' left' := by
  induction h with
  | done => exact h'
  | token _ ih => exact .token (ih h')

/-- A text with tokens holds the first of them at its start. -/
theorem exists_cons_of_tokensFrom {token : Token} (h : l.tokensFrom s text = token :: tokens) :
    ∃ c rest, text = c :: rest ∧
      token = ⟨(l.cut s c rest).kind, c :: rest.take (l.cut s c rest).more⟩ ∧
      tokens = l.tokensFrom (l.cut s c rest).next (rest.drop (l.cut s c rest).more) := by
  cases text with
  | nil =>
    rw [tokensFrom_nil] at h
    cases h
  | cons c rest =>
    rw [tokensFrom_cons, List.cons.injEq] at h
    exact ⟨c, rest, rfl, h.1.symm, h.2.symm⟩

/-- The tokens of a text are those that are read and then those of what is left. -/
theorem Lexer.Reads.tokensFrom_eq (h : l.Reads s text tokens s' left) :
    l.tokensFrom s text = tokens ++ l.tokensFrom s' left := by
  induction h with
  | done => rfl
  | token _ ih => rw [tokensFrom_cons, ih, List.cons_append]

theorem Lexer.Reads.tokensFrom_of_all (h : l.Reads s text tokens s' []) :
    l.tokensFrom s text = tokens := by
  rw [h.tokensFrom_eq, tokensFrom_nil, List.append_nil]

theorem Lexer.Reads.text_eq (h : l.Reads s text tokens s' left) :
    text = tokens.flatMap (·.text) ++ left := by
  induction h with
  | done => rfl
  | @token s s' c rest left tokens _ ih =>
    rw [List.flatMap_cons, List.append_assoc, ← ih, List.cons_append, List.take_append_drop]

/-- Wherever the tokens of a text are split, the lexer was there. -/
theorem reads_of_append (h : l.tokensFrom s text = tokens ++ tokens') :
    ∃ s' left, l.Reads s text tokens s' left ∧ tokens' = l.tokensFrom s' left := by
  induction tokens generalizing s text with
  | nil => exact ⟨s, text, .done, h.symm⟩
  | cons token tokens ih =>
    obtain ⟨c, rest, rfl, rfl, hrest⟩ := exists_cons_of_tokensFrom h
    obtain ⟨s', left, hreads, hlast⟩ := ih hrest.symm
    exact ⟨s', left, .token hreads, hlast⟩

/-- What each token of some sort keeps, of the state and the text up to there, holds after many of
them. -/
theorem Lexer.Reads.keeps {P : Token → Prop} {I : l.State → List Char → Prop}
    (step : ∀ s c rest seen, P ⟨(l.cut s c rest).kind, c :: rest.take (l.cut s c rest).more⟩ →
      I s seen → I (l.cut s c rest).next (seen ++ c :: rest.take (l.cut s c rest).more))
    (h : l.Reads s text tokens s' left) (hp : ∀ token ∈ tokens, P token) (seen : List Char)
    (hs : I s seen) : I s' (seen ++ tokens.flatMap (·.text)) := by
  induction h generalizing seen with
  | done => simpa using hs
  | @token s s' c rest left tokens _ ih =>
    have hnext := step s c rest seen (hp _ List.mem_cons_self) hs
    rw [List.flatMap_cons, ← List.append_assoc]
    exact ih (fun token ht => hp token (List.mem_cons_of_mem _ ht)) _ hnext

/-- One token, whose length is known. -/
theorem reads_one {c : Char} {more rest : List Char} {kind : TokenKind} {next : l.State}
    (h : l.cut s c (more ++ rest) = ⟨kind, more.length, next⟩) :
    l.Reads s (c :: (more ++ rest)) [⟨kind, c :: more⟩] next rest := by
  have hread : l.Reads s (c :: (more ++ rest)) _ _ _ := .token .done
  rwa [h, List.take_left, List.drop_left] at hread

/-- A token of one character. -/
theorem reads_char {c : Char} {rest : List Char} {kind : TokenKind} {next : l.State}
    (h : l.cut s c rest = ⟨kind, 0, next⟩) : l.Reads s (c :: rest) [⟨kind, [c]⟩] next rest :=
  reads_one (show l.cut s c ([] ++ rest) = ⟨kind, ([] : List Char).length, next⟩ from h)

end

/-- A token with the text, but none if there is no text. -/
def tokenIfAny (kind : TokenKind) (text : List Char) : List Token :=
  if text = [] then [] else [⟨kind, text⟩]

@[simp] theorem tokenIfAny_nil (kind : TokenKind) : tokenIfAny kind [] = [] := rfl

@[simp] theorem tokenIfAny_cons (kind : TokenKind) (c : Char) (text : List Char) :
    tokenIfAny kind (c :: text) = [⟨kind, c :: text⟩] := rfl

/-! ## Carriage returns -/

theorem withoutReturns_append (text later : List Char) :
    withoutReturns (text ++ later) = withoutReturns text ++ withoutReturns later := by
  rw [withoutReturns, List.filter_append, withoutReturns, withoutReturns]

theorem withoutReturns_of_notMem {text : List Char} (h : '\r' ∉ text) :
    withoutReturns text = text := by
  refine List.filter_eq_self.mpr fun c hc => ?_
  rw [bne_iff_ne]
  rintro rfl
  exact h hc

/-! ## Lengths -/

theorem lengthUntil_le (stop : Char → Bool) (text : List Char) :
    lengthUntil stop text ≤ text.length :=
  (List.takeWhile_prefix _).length_le

/-- What is left starts with a character that stops. -/
theorem stop_of_drop_lengthUntil {stop : Char → Bool} {text : List Char} {c : Char}
    (h : c ∈ (text.drop (lengthUntil stop text)).head?) : stop c = true := by
  have hsplit := List.takeWhile_append_dropWhile (p := (!stop ·)) (l := text)
  have hdrop : text.drop (lengthUntil stop text) = text.dropWhile (!stop ·) :=
    (congrArg (List.drop _) hsplit.symm).trans List.drop_left
  have hhead := List.head?_dropWhile_not (!stop ·) text
  rw [← hdrop, Option.mem_def.mp h] at hhead
  simpa using hhead

/-- What is cut off goes up to the first character that stops it. -/
theorem lengthUntil_append {stop : Char → Bool} {text rest : List Char}
    (h : ∀ c ∈ text, stop c = false) (hr : ∀ c ∈ rest.head?, stop c = true) :
    lengthUntil stop (text ++ rest) = text.length := by
  have htext : ∀ c ∈ text, (!stop c) = true := fun c hc => by rw [h c hc, Bool.not_false]
  have hrest : rest.takeWhile (!stop ·) = [] := by
    cases rest with
    | nil => rfl
    | cons c rest => simp [hr c (by simp)]
  rw [lengthUntil, List.takeWhile_append_of_pos htext, hrest, List.append_nil]

theorem lengthOfLine_append {line rest : List Char} (h : '\n' ∉ line)
    (hr : ∀ c ∈ rest.head?, c = '\n') : lengthOfLine (line ++ rest) = line.length := by
  refine lengthUntil_append (fun c hc => ?_) (fun c hc => ?_)
  · rw [beq_eq_false_iff_ne]
    rintro rfl
    exact h hc
  · rw [hr c hc]
    rfl

theorem lengthOfBlanks_append {blanks rest : List Char} (h : ∀ c ∈ blanks, isBlank c = true)
    (hr : ∀ c ∈ rest.head?, isBlank c = false) :
    lengthOfBlanks (blanks ++ rest) = blanks.length :=
  lengthUntil_append (fun c hc => by rw [h c hc, Bool.not_true])
    (fun c hc => by rw [hr c hc, Bool.not_false])

end WikiHtml.Highlight
