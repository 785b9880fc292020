-- Block scalars of YAML. Whether one goes on is decided a line ahead, in view of the next line that is
-- not blank; all lines up to the first one that is indented no deeper than the key belong to it.
import WikiHtml.Proofs.Highlight.Reading
import WikiHtml.Proofs.Text.Pieces

namespace WikiHtml.Highlight.Yaml

open Text

/-! ## One token -/

/-- All that the lexer may do at a character. -/
inductive Cuts (s : State) : Char → List Char → Cut State → Prop
  | lineBreak {rest : List Char} :
      Cuts s '\n' rest ⟨.lineBreak, 0,
        { s with expect := if s.expect = .multilineText then .multilineText else .key, column := 0 }⟩
  | separator {rest : List Char} : s.expect = .key → "--".toList <+: rest →
      Cuts s '-' rest (s.advance .documentSeparator 2 .comment)
  | entry {rest : List Char} : s.expect = .key →
      Cuts s '-' rest (s.advance .specialCharacter 0 .key)
  | comment {c : Char} {rest : List Char} : c ≠ '\n' →
      s.expect = .comment ∨ s.expect = .key ∧ c = '#' →
      Cuts s c rest (s.advance .comment (lengthOfLine rest) .key)
  | block {c : Char} {rest : List Char} : c ≠ '\n' →
      s.expect = .multilineText ∨ s.expect = .value ∧ (c = '>' ∨ c = '|') →
      Cuts s c rest (cutBlockLine s rest)
  | colon {rest : List Char} : s.expect ≠ .comment → s.expect ≠ .multilineText →
      Cuts s ':' rest (s.advance .specialCharacter 0 .value)
  | blanks {c : Char} {rest : List Char} : isBlank c = true → s.expect ≠ .comment →
      s.expect ≠ .multilineText →
      Cuts s c rest (s.advance .whitespace (lengthOfBlanks rest) s.expect)
  | key {c : Char} {rest : List Char} : c ≠ '\n' → isBlank c = false → s.expect = .key →
      Cuts s c rest ({ s with keyColumn := s.column }.advance .key
        (lengthUntil (fun c => c == ':' || c == '\n') rest) .colon)
  | value {c : Char} {rest : List Char} : c ≠ '\n' → isBlank c = false → s.expect ≠ .comment →
      s.expect ≠ .multilineText → s.expect ≠ .key → ¬(s.expect = .value ∧ (c = '>' ∨ c = '|')) →
      Cuts s c rest (s.advance .value (lengthOfLine rest) .key)

theorem cut_cuts (s : State) (c : Char) (rest : List Char) : Cuts s c rest (cut s c rest) := by
  unfold cut
  split
  · rename_i hc
    subst hc
    exact .lineBreak
  rename_i hbreak
  split
  · rename_i hentry
    simp only [Bool.and_eq_true, decide_eq_true_eq] at hentry
    obtain ⟨hs, rfl⟩ := hentry
    split
    · rename_i hmark
      exact .separator hs (List.isPrefixOf_iff_prefix.mp hmark)
    · exact .entry hs
  split
  · rename_i hcomment
    simp only [Bool.or_eq_true, Bool.and_eq_true, decide_eq_true_eq] at hcomment
    exact .comment hbreak hcomment
  rename_i hcomment
  simp only [Bool.or_eq_true, decide_eq_true_eq, not_or] at hcomment
  split
  · rename_i hs
    exact .block hbreak (.inl hs)
  rename_i hblock
  split
  · rename_i hc
    subst hc
    exact .colon hcomment.1 hblock
  split
  · rename_i hblank
    exact .blanks hblank hcomment.1 hblock
  rename_i hblank
  rw [Bool.not_eq_true] at hblank
  split
  · rename_i hs
    exact .key hbreak hblank hs
  rename_i hkey
  split
  · rename_i hs
    simp only [Bool.and_eq_true, Bool.or_eq_true, decide_eq_true_eq] at hs
    exact .block hbreak (.inr hs)
  · rename_i hs
    simp only [Bool.and_eq_true, Bool.or_eq_true, decide_eq_true_eq] at hs
    exact .value hbreak hblank hcomment.1 hblock hkey hs

section

variable {s : State} {c : Char} {rest : List Char} {k : Cut State}

/-- A key goes up to a colon or to the end of the line. -/
theorem Cuts.eq_of_key (h : Cuts s c rest k) (hk : k.kind = .key) :
    k = { s with keyColumn := s.column }.advance .key
      (lengthUntil (fun c => c == ':' || c == '\n') rest) .colon := by
  cases h with
  | key => rfl
  | _ => cases hk

/-- The kinds of what may stand between a key and its value. -/
def IsBetween (kind : TokenKind) : Prop :=
  kind = .specialCharacter ∨ kind = .whitespace

instance (kind : TokenKind) : Decidable (IsBetween kind) :=
  inferInstanceAs (Decidable (_ ∨ _))

/-- In front of a value blanks and further colons change nothing. -/
theorem Cuts.before_value (h : Cuts s c rest k) (hs : s.expect = .value) (hk : IsBetween k.kind) :
    k.next.expect = .value ∧ k.next.keyColumn = s.keyColumn := by
  cases h with
  | entry he => cases hs.symm.trans he
  | colon => exact ⟨rfl, rfl⟩
  | blanks => exact ⟨hs, rfl⟩
  | _ => rcases hk with hk | hk <;> cases hk

/-- At the mark of a block scalar in the place of a value the first line of it is cut. -/
theorem Cuts.eq_of_mark (h : Cuts s c rest k) (hs : s.expect = .value) (hc : c = '>' ∨ c = '|') :
    k = cutBlockLine s rest := by
  cases h with
  | block => rfl
  | lineBreak | colon => rcases hc with hc | hc <;> cases hc
  | separator he | entry he => cases hs.symm.trans he
  | comment _ he => rcases he with he | ⟨he, _⟩ <;> cases hs.symm.trans he
  | key _ _ he => cases hs.symm.trans he
  | blanks hb => rcases hc with rfl | rfl <;> cases hb
  | value _ _ _ _ _ hmark => exact absurd ⟨hs, hc⟩ hmark

theorem Cuts.eq_of_multilineText (h : Cuts s c rest k) (hs : s.expect = .multilineText)
    (hc : c ≠ '\n') : k = cutBlockLine s rest := by
  cases h with
  | block => rfl
  | lineBreak => exact absurd rfl hc
  | separator he | entry he | key _ _ he => cases hs.symm.trans he
  | comment _ he => rcases he with he | ⟨he, _⟩ <;> cases hs.symm.trans he
  | colon _ he | blanks _ _ he | value _ _ _ he => exact absurd hs he

theorem Cuts.eq_of_blank (h : Cuts s c rest k) (hs : s.expect = .key) (hc : isBlank c = true) :
    k = s.advance .whitespace (lengthOfBlanks rest) .key := by
  cases h with
  | blanks => rw [hs]
  | lineBreak | separator | entry | colon => cases hc
  | comment _ he =>
    rcases he with he | ⟨_, rfl⟩
    · cases hs.symm.trans he
    · cases hc
  | block _ he => rcases he with he | ⟨he, _⟩ <;> cases hs.symm.trans he
  | key _ hb | value _ hb => cases hc.symm.trans hb

/-- The kinds of tokens that start a line outside of block scalars, after its blanks. -/
def StartsLine (kind : TokenKind) : Prop :=
  kind = .key ∨ kind = .specialCharacter ∨ kind = .comment ∨ kind = .documentSeparator

theorem Cuts.startsLine (h : Cuts s c rest k) (hs : s.expect = .key) (hc : c ≠ '\n')
    (hblank : isBlank c = false) : StartsLine k.kind := by
  cases h with
  | lineBreak => exact absurd rfl hc
  | key => exact .inl rfl
  | entry | colon => exact .inr (.inl rfl)
  | comment => exact .inr (.inr (.inl rfl))
  | separator => exact .inr (.inr (.inr rfl))
  | block _ he => rcases he with he | ⟨he, _⟩ <;> cases hs.symm.trans he
  | blanks hb => rw [hblank] at hb; cases hb
  | value _ _ _ _ he => exact absurd hs he

end

/-! ## Columns -/

theorem column_of_reads {s s' : State} {text left : List Char} {tokens : List Token}
    (h : lexer.Reads s text tokens s' left) (seen : List Char) (hs : s.column = columnAfter seen) :
    s'.column = columnAfter (seen ++ tokens.flatMap (·.text)) :=
  h.keeps (P := fun _ => True) (I := fun (s : State) seen => s.column = columnAfter seen)
    (fun _ c rest _ _ hs => column_cut c rest hs) (fun _ _ => trivial) seen hs

/-! ## Lines -/

/-- The first character of a line that is no blank, and the column where it stands. -/
def StartsAt (line : List Char) (column : Nat) (c : Char) : Prop :=
  ∃ blanks rest, line = blanks ++ c :: rest ∧ blanks.length = column ∧
    (∀ b ∈ blanks, isBlank b = true) ∧ isBlank c = false

theorem blank_or_startsAt (line : List Char) :
    (∀ c ∈ line, isBlank c = true) ∨ ∃ column c, StartsAt line column c := by
  induction line with
  | nil => exact .inl (by simp)
  | cons c rest ih =>
    by_cases hc : isBlank c = true
    · rcases ih with hblank | ⟨_, c', blanks, rest', rfl, rfl, hblanks, hc'⟩
      · exact .inl (List.forall_mem_cons.mpr ⟨hc, hblank⟩)
      · exact .inr ⟨_, c', c :: blanks, rest', rfl, rfl, List.forall_mem_cons.mpr ⟨hc, hblanks⟩, hc'⟩
    · exact .inr ⟨0, c, [], rest, rfl, rfl, by simp, by simpa using hc⟩

theorem ne_break_of_blank {c : Char} (h : isBlank c = true) : c ≠ '\n' := by
  rintro rfl
  cases h

theorem firstColumn_blanks {blanks : List Char} (h : ∀ c ∈ blanks, isBlank c = true) (column : Nat)
    (rest : List Char) :
    firstColumn column (blanks ++ rest) = firstColumn (column + blanks.length) rest := by
  induction blanks generalizing column with
  | nil => rfl
  | cons c blanks ih =>
    obtain ⟨hc, hblanks⟩ := List.forall_mem_cons.mp h
    rw [List.cons_append, firstColumn, if_neg (ne_break_of_blank hc), if_pos hc, ih hblanks,
      List.length_cons, Nat.add_assoc, Nat.add_comm 1]

variable {lines : List (List Char)} {line : List Char}

/-- In view of a blank line it is the lines after it that count. -/
theorem blockContinues_blank (h : ∀ c ∈ line, isBlank c = true) (keyColumn : Nat) :
    blockContinues keyColumn (behind '\n' (line :: lines)) =
      blockContinues keyColumn (behind '\n' lines) := by
  rw [blockContinues, blockContinues, behind_cons, List.tail_cons, firstColumn_blanks h]
  cases lines with
  | nil => rfl
  | cons later lines => rfl

theorem blockContinues_startsAt {column : Nat} {c : Char} (h : StartsAt line column c)
    (hline : '\n' ∉ line) (keyColumn : Nat) :
    blockContinues keyColumn (behind '\n' (line :: lines)) = decide (keyColumn < column) := by
  obtain ⟨blanks, rest, rfl, rfl, hblanks, hc⟩ := h
  have hbreak : c ≠ '\n' := by
    rintro rfl
    exact hline (by simp)
  rw [blockContinues, behind_cons, List.tail_cons, List.append_assoc, List.cons_append,
    firstColumn_blanks hblanks, firstColumn, if_neg hbreak, hc, Nat.zero_add]
  rfl

theorem lengthOfLine_behind (h : '\n' ∉ line) (lines : List (List Char)) :
    lengthOfLine (line ++ behind '\n' lines) = line.length :=
  lengthOfLine_append h fun _ hc => eq_of_head?_behind hc

/-! ## What follows the first line of a block scalar -/

/-- The tokens of the lines after that of a key in the column, where a block scalar has started: each
line that is indented deeper is one token of it, and blank lines do not end it. The first line that is
not indented deeper starts outside. -/
inductive Continues (keyColumn : Nat) : List (List Char) → List Token → Prop
  | over : Continues keyColumn [] []
  | blank {line : List Char} {lines : List (List Char)} {kind : TokenKind} {tokens : List Token} :
      (∀ c ∈ line, isBlank c = true) → kind = .multilineText ∨ kind = .whitespace →
      Continues keyColumn lines tokens →
      Continues keyColumn (line :: lines) (⟨.lineBreak, ['\n']⟩ :: (tokenIfAny kind line ++ tokens))
  | inside {line : List Char} {lines : List (List Char)} {column : Nat} {c : Char}
      {tokens : List Token} : StartsAt line column c → keyColumn < column →
      Continues keyColumn lines tokens →
      Continues keyColumn (line :: lines) (⟨.lineBreak, ['\n']⟩ :: ⟨.multilineText, line⟩ :: tokens)
  | outside {line : List Char} {lines : List (List Char)} {column : Nat} {c : Char}
      {kind : TokenKind} {more : List Char} {tokens : List Token} : StartsAt line column c →
      column ≤ keyColumn → StartsLine kind →
      Continues keyColumn (line :: lines) (⟨.lineBreak, ['\n']⟩ ::
        (tokenIfAny .whitespace (line.take column) ++ ⟨kind, c :: more⟩ :: tokens))

section

variable {s : State} {c : Char} {more rest : List Char}

/-- What is expected after a line, as the lines behind it have it. -/
def expectAfter (keyColumn : Nat) (lines : List (List Char)) : Expect :=
  if blockContinues keyColumn (behind '\n' lines) then .multilineText else .key

/-- The line break leaves what is expected. -/
theorem tokensFrom_break (hs : s.expect = expectAfter s.keyColumn lines) (rest : List Char) :
    lexer.tokensFrom s ('\n' :: rest) =
      ⟨.lineBreak, ['\n']⟩ :: lexer.tokensFrom { s with column := 0 } rest := by
  have hcut : cut s '\n' rest = ⟨.lineBreak, 0, { s with column := 0 }⟩ := by
    rw [show cut s '\n' rest = ⟨.lineBreak, 0, { s with
      expect := if s.expect = .multilineText then .multilineText else .key, column := 0 }⟩ from rfl]
    have hexpect : (if s.expect = .multilineText then .multilineText else .key) = s.expect := by
      rw [hs]
      unfold expectAfter
      split <;> rfl
    rw [hexpect]
  exact (reads_char hcut).tokensFrom_eq

theorem cutBlockLine_line (s : State) (h : '\n' ∉ more) (lines : List (List Char)) :
    cutBlockLine s (more ++ behind '\n' lines) =
      s.advance .multilineText more.length (expectAfter s.keyColumn lines) := by
  rw [cutBlockLine, lengthOfLine_behind h, List.drop_left]
  rfl

/-- A line of a block scalar as one token, and what is expected after it. -/
theorem reads_blockLine (hs : s.expect = .multilineText) (h : '\n' ∉ c :: more) :
    ∃ s', lexer.Reads s (c :: (more ++ behind '\n' lines)) [⟨.multilineText, c :: more⟩] s'
        (behind '\n' lines) ∧
      s'.keyColumn = s.keyColumn ∧ s'.expect = expectAfter s.keyColumn lines := by
  rw [List.mem_cons, not_or] at h
  have hcut := (cut_cuts s c (more ++ behind '\n' lines)).eq_of_multilineText hs (Ne.symm h.1)
  rw [cutBlockLine_line s h.2] at hcut
  exact ⟨_, reads_one hcut, rfl, rfl⟩

/-- Blanks in front of something, outside of block scalars. -/
theorem reads_blanks {blanks : List Char} (hs : s.expect = .key)
    (h : ∀ b ∈ blanks, isBlank b = true) (hr : ∀ b ∈ rest.head?, isBlank b = false) :
    ∃ s', lexer.Reads s (blanks ++ rest) (tokenIfAny .whitespace blanks) s' rest ∧
      s'.keyColumn = s.keyColumn ∧ s'.expect = .key := by
  cases blanks with
  | nil => exact ⟨s, .done, rfl, hs⟩
  | cons b blanks =>
    obtain ⟨hb, hblanks⟩ := List.forall_mem_cons.mp h
    have hcut := (cut_cuts s b (blanks ++ rest)).eq_of_blank hs hb
    rw [lengthOfBlanks_append hblanks hr] at hcut
    exact ⟨_, reads_one hcut, rfl, rfl⟩

end

/-- Wherever the lexer comes to the lines with what is expected there, they are read as they should be. -/
def ContinuesFrom (keyColumn : Nat) (lines : List (List Char)) : Prop :=
  ∀ s : State, s.keyColumn = keyColumn → s.expect = expectAfter keyColumn lines →
    Continues keyColumn lines (lexer.tokensFrom s (behind '\n' lines))

section

variable {keyColumn column : Nat} {c : Char}

theorem continuesFrom_blank (hblank : ∀ c ∈ line, isBlank c = true)
    (h : ContinuesFrom keyColumn lines) : ContinuesFrom keyColumn (line :: lines) := by
  rintro s rfl hs
  have hline : '\n' ∉ line := fun hc => ne_break_of_blank (hblank _ hc) rfl
  have hafter : expectAfter s.keyColumn (line :: lines) = expectAfter s.keyColumn lines := by
    rw [expectAfter, blockContinues_blank hblank, expectAfter]
  rw [behind_cons, tokensFrom_break hs]
  rw [hafter] at hs
  rcases hgoes : blockContinues s.keyColumn (behind '\n' lines) with _ | _
  · have hkey : s.expect = .key := by rw [hs, expectAfter, hgoes]; rfl
    have hhead : ∀ b ∈ (behind '\n' lines).head?, isBlank b = false := by
      intro b hb
      rw [eq_of_head?_behind hb]
      rfl
    obtain ⟨s', hreads, hcolumn, hexpect⟩ :=
      reads_blanks (s := { s with column := 0 }) hkey hblank hhead
    rw [hreads.tokensFrom_eq]
    exact .blank hblank (.inr rfl) (h s' hcolumn (by rw [hexpect, ← hkey, hs]))
  · have hblock : s.expect = .multilineText := by rw [hs, expectAfter, hgoes]; rfl
    cases line with
    | nil =>
      have hkind : TokenKind.multilineText = .multilineText ∨ TokenKind.multilineText = .whitespace :=
        .inl rfl
      exact .blank hblank hkind (h _ rfl hs)
    | cons b more =>
      obtain ⟨s', hreads, hcolumn, hexpect⟩ :=
        reads_blockLine (s := { s with column := 0 }) hblock hline
      rw [List.cons_append, hreads.tokensFrom_eq]
      exact .blank hblank (.inl rfl) (h s' hcolumn hexpect)

theorem continuesFrom_inside (hstart : StartsAt line column c) (hline : '\n' ∉ line)
    (hdeeper : keyColumn < column) (h : ContinuesFrom keyColumn lines) :
    ContinuesFrom keyColumn (line :: lines) := by
  rintro s rfl hs
  have hblock : s.expect = .multilineText := by
    rw [hs, expectAfter, blockContinues_startsAt hstart hline, decide_eq_true hdeeper]
    rfl
  obtain ⟨first, more, rfl⟩ : ∃ first more, line = first :: more := by
    obtain ⟨blanks, rest, rfl, -⟩ := hstart
    exact List.exists_cons_of_ne_nil (by simp)
  obtain ⟨s', hreads, hcolumn, hexpect⟩ :=
    reads_blockLine (s := { s with column := 0 }) hblock hline
  rw [behind_cons, tokensFrom_break hs, List.cons_append, hreads.tokensFrom_eq]
  exact .inside hstart hdeeper (h s' hcolumn hexpect)

theorem continuesFrom_outside (hstart : StartsAt line column c) (hline : '\n' ∉ line)
    (hleft : column ≤ keyColumn) : ContinuesFrom keyColumn (line :: lines) := by
  rintro s rfl hs
  have hkey : s.expect = .key := by
    rw [hs, expectAfter, blockContinues_startsAt hstart hline,
      decide_eq_false (Nat.not_lt.mpr hleft)]
    rfl
  rw [behind_cons, tokensFrom_break hs]
  have hcopy := hstart
  obtain ⟨blanks, rest, rfl, rfl, hblanks, hc⟩ := hcopy
  have hbreak : c ≠ '\n' := by
    rintro rfl
    exact hline (by simp)
  have hhead : ∀ b ∈ (c :: (rest ++ behind '\n' lines)).head?, isBlank b = false := by
    simpa using hc
  obtain ⟨s', hreads, -, hexpect⟩ :=
    reads_blanks (s := { s with column := 0 }) hkey hblanks hhead
  have hkind := (cut_cuts s' c (rest ++ behind '\n' lines)).startsLine hexpect hbreak hc
  rw [List.append_assoc, List.cons_append, hreads.tokensFrom_eq, tokensFrom_cons]
  have hblanks : blanks = (blanks ++ c :: rest).take blanks.length := List.take_left.symm
  nth_rewrite 2 [hblanks]
  exact .outside hstart hleft hkind

theorem continuesFrom_lines (keyColumn : Nat) (h : ∀ line ∈ lines, '\n' ∉ line) :
    ContinuesFrom keyColumn lines := by
  induction lines with
  | nil =>
    intro s _ _
    exact (tokensFrom_nil lexer s).symm ▸ .over
  | cons line lines ih =>
    obtain ⟨hline, hlines⟩ := List.forall_mem_cons.mp h
    rcases blank_or_startsAt line with hblank | ⟨column, c, hstart⟩
    · exact continuesFrom_blank hblank (ih hlines)
    · rcases Nat.lt_or_ge keyColumn column with hdeeper | hleft
      · exact continuesFrom_inside hstart hline hdeeper (ih hlines)
      · exact continuesFrom_outside hstart hline hleft

end

/-! ## From the key to the scalar -/

theorem stop_of_key {rest : List Char} {d : Char}
    (h : d ∈ (rest.drop (lengthUntil (fun c => c == ':' || c == '\n') rest)).head?) :
    d = ':' ∨ d = '\n' := by
  simpa using stop_of_drop_lengthUntil h

/-- The column of the key stays in mind up to the value. -/
theorem value_of_reads {s s' : State} {text left : List Char} {between : List Token}
    (h : lexer.Reads s text between s' left) (hs : s.expect = .value)
    (hbetween : ∀ token ∈ between, IsBetween token.kind) :
    s'.expect = .value ∧ s'.keyColumn = s.keyColumn :=
  h.keeps (P := fun token => IsBetween token.kind)
    (I := fun (s' : State) _ => s'.expect = .value ∧ s'.keyColumn = s.keyColumn)
    (fun s' c rest _ hk hs' => by
      obtain ⟨hexpect, hcolumn⟩ := (cut_cuts s' c rest).before_value hs'.1 hk
      exact ⟨hexpect, hcolumn.trans hs'.2⟩)
    hbetween [] ⟨hs, rfl⟩

/-- The lexer comes from a key to the value with the column of the key in mind. -/
theorem reads_to_value {s : State} {text : List Char} {key mark : Token} {between after : List Token}
    (h : lexer.tokensFrom s text = key :: (between ++ mark :: after)) (hkey : key.kind = .key)
    (hbetween : ∀ token ∈ between, IsBetween token.kind)
    (hmark : mark.text.head? = some '>' ∨ mark.text.head? = some '|') :
    ∃ (s' : State) (left : List Char), mark :: after = lexer.tokensFrom s' left ∧
      s'.expect = .value ∧ s'.keyColumn = s.column := by
  obtain ⟨c, rest, rfl, rfl, hrest⟩ := exists_cons_of_tokensFrom h
  have hcut : lexer.cut s c rest = _ := (cut_cuts s c rest).eq_of_key hkey
  rw [hcut] at hrest
  dsimp only [State.advance] at hrest
  cases between with
  | nil =>
    obtain ⟨d, rest', hleft, rfl, -⟩ := exists_cons_of_tokensFrom hrest.symm
    rcases stop_of_key (by rw [hleft]; rfl) with rfl | rfl <;> rcases hmark with hc | hc <;> cases hc
  | cons token between =>
    obtain ⟨htoken, hlater⟩ := List.forall_mem_cons.mp hbetween
    obtain ⟨d, rest', hleft, rfl, hrest'⟩ := exists_cons_of_tokensFrom hrest.symm
    rcases stop_of_key (by rw [hleft]; rfl) with rfl | rfl
    · obtain ⟨s', left, hreads, hlast⟩ := reads_of_append hrest'.symm
      exact ⟨s', left, hlast, value_of_reads hreads rfl hlater⟩
    · rcases htoken with hk | hk <;> cases hk

/-- A block scalar that starts behind a key goes up to the first line that is not blank and is indented
no deeper than the key. -/
theorem block_scalars_end_where_their_indentation_ends (code : String)
    {before between after : List Token} {key mark : Token}
    (h : Language.yaml.tokens code = before ++ key :: (between ++ mark :: after))
    (hkey : key.kind = .key) (hbetween : ∀ token ∈ between, IsBetween token.kind)
    (hmark : mark.text.head? = some '>' ∨ mark.text.head? = some '|') :
    mark.kind = .multilineText ∧
      ∃ lines, after.flatMap (·.text) = behind '\n' lines ∧ (∀ line ∈ lines, '\n' ∉ line) ∧
        Continues (columnAfter (before.flatMap (·.text))) lines after := by
  rw [Language.tokens_eq] at h
  obtain ⟨s, text, hreads, hrest⟩ := reads_of_append h
  have hcolumn : s.column = columnAfter (before.flatMap (·.text)) :=
    column_of_reads hreads [] rfl
  obtain ⟨s', left, hleft, hvalue, hkeyColumn⟩ :=
    reads_to_value hrest.symm hkey hbetween hmark
  obtain ⟨c, rest, rfl, rfl, hafter⟩ := exists_cons_of_tokensFrom hleft.symm
  have hc : c = '>' ∨ c = '|' := by simpa using hmark
  obtain ⟨line, lines, -, rfl, hline, hlines⟩ := exists_pieces '\n' rest
  have hcut : lexer.cut s' c (line ++ behind '\n' lines) = _ :=
    ((cut_cuts s' c _).eq_of_mark hvalue hc).trans (cutBlockLine_line s' hline lines)
  rw [hcut] at hafter
  dsimp only [State.advance] at hafter
  rw [List.drop_left] at hafter
  refine ⟨by rw [hcut]; rfl, lines, ?_, hlines, ?_⟩
  · rw [hafter]
    exact tokensFrom_text lexer _ _
  · rw [← hcolumn, ← hkeyColumn, hafter]
    exact continuesFrom_lines s'.keyColumn hlines _ rfl rfl

/-- The tokens after a mark: an indented line, a line of blanks, and a line in the column of the key. -/
def afterMark : List Token :=
  [⟨.lineBreak, ['\n']⟩, ⟨.multilineText, "   x".toList⟩, ⟨.lineBreak, ['\n']⟩,
    ⟨.whitespace, [' ', '\t']⟩, ⟨.lineBreak, ['\n']⟩, ⟨.whitespace, [' ', ' ']⟩, ⟨.key, ['b']⟩]

/-- Behind a dash the column of the key counts, and the dash is left of it. -/
theorem a_scalar_behind_a_dash_ends_at_the_column_of_its_key :
    Language.yaml.tokens "- a: |\n   x\n \t\n  b" =
        [⟨.specialCharacter, ['-']⟩, ⟨.whitespace, [' ']⟩] ++ ⟨.key, ['a']⟩ ::
          ([⟨.specialCharacter, [':']⟩, ⟨.whitespace, [' ']⟩] ++
            ⟨.multilineText, ['|']⟩ :: afterMark) ∧
      ∃ lines, afterMark.flatMap (·.text) = behind '\n' lines ∧ Continues 2 lines afterMark := by
  have hcode : Language.yaml.tokens "- a: |\n   x\n \t\n  b" =
      [⟨.specialCharacter, ['-']⟩, ⟨.whitespace, [' ']⟩] ++ ⟨.key, ['a']⟩ ::
        ([⟨.specialCharacter, [':']⟩, ⟨.whitespace, [' ']⟩] ++
          ⟨.multilineText, ['|']⟩ :: afterMark) := by
    rw [Language.tokens_eq]
    decide +kernel
  obtain ⟨-, lines, htext, -, hcontinues⟩ :=
    block_scalars_end_where_their_indentation_ends _ hcode rfl (by decide) (by decide)
  exact ⟨hcode, lines, htext, hcontinues⟩

end WikiHtml.Highlight.Yaml
