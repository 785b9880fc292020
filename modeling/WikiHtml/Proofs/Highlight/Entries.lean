-- Entries: lines with a key, a delimiter and a value, and blanks around the delimiter. A key of a
-- properties file ends where blanks or a delimiter may stand. One of an INI file ends at a space or an
-- equals sign only, so it goes on over a tab or a colon.
import WikiHtml.Proofs.Highlight.Reading

namespace WikiHtml.Highlight

/-- A line with a key and a value. The value may hold delimiters and the marks of comments and
sections. -/
structure Entry where
  key : List Char
  before : List Char
  delimiter : Char
  after : List Char
  value : List Char
  keyNonempty : key ≠ []
  keyPlain : ∀ c ∈ key, c ∉ [' ', '\t', '=', ':', '\n', '\r']
  keyOpens : ∀ mark ∈ [['['], ['#'], [';'], ['/', '/']], ¬ mark <+: key
  beforeBlank : ∀ c ∈ before, isBlank c = true
  isDelimiter : delimiter = '=' ∨ delimiter = ':'
  afterBlank : ∀ c ∈ after, isBlank c = true
  valueNonempty : value ≠ []
  valueOpens : ∀ c ∈ value.head?, isBlank c = false
  valueOneLine : '\n' ∉ value ∧ '\r' ∉ value

/-- What stands behind the key. -/
def Entry.afterKey (e : Entry) : List Char :=
  e.before ++ e.delimiter :: (e.after ++ e.value)

def Entry.text (e : Entry) : List Char :=
  e.key ++ e.afterKey

def Entry.tokensAfterKey (e : Entry) : List Token :=
  tokenIfAny .whitespace e.before ++ ⟨.delimiter, [e.delimiter]⟩ ::
    (tokenIfAny .whitespace e.after ++ [⟨.value, e.value⟩])

/-- The parts of an entry, each as a token. Blanks are one only if there are any. -/
def Entry.tokens (e : Entry) : List Token :=
  ⟨.key, e.key⟩ :: e.tokensAfterKey

/-! ## Behind the key -/

/-- A lexer that expects a delimiter behind a key, and a value behind that. -/
structure Lexer.SplitsEntries (l : Lexer) (delimiter value : l.State) : Prop where
  blanks : ∀ s, s = delimiter ∨ s = value → ∀ c rest, isBlank c = true →
    l.cut s c rest = ⟨.whitespace, lengthOfBlanks rest, s⟩
  delimiter : ∀ c rest, c = '=' ∨ c = ':' → l.cut delimiter c rest = ⟨.delimiter, 0, value⟩
  value : ∀ c rest, c ≠ '\n' → isBlank c = false →
    l.cut value c rest = ⟨.value, lengthOfLine rest, l.start⟩

section

variable {l : Lexer} {delimiter value : l.State}

theorem Lexer.SplitsEntries.reads_blanks (h : l.SplitsEntries delimiter value) {s : l.State}
    (hs : s = delimiter ∨ s = value) {blanks rest : List Char} (hb : ∀ c ∈ blanks, isBlank c = true)
    (hr : ∀ c ∈ rest.head?, isBlank c = false) :
    l.Reads s (blanks ++ rest) (tokenIfAny .whitespace blanks) s rest := by
  cases blanks with
  | nil => exact .done
  | cons c blanks =>
    obtain ⟨hc, hblanks⟩ := List.forall_mem_cons.mp hb
    have hcut := h.blanks s hs c (blanks ++ rest) hc
    rw [lengthOfBlanks_append hblanks hr] at hcut
    exact reads_one hcut

theorem Lexer.SplitsEntries.reads_value (h : l.SplitsEntries delimiter value) (e : Entry) :
    l.Reads value e.value [⟨.value, e.value⟩] l.start [] := by
  obtain ⟨c, more, htext⟩ := List.exists_cons_of_ne_nil e.valueNonempty
  have hblank := e.valueOpens
  have hline := e.valueOneLine.1
  rw [htext] at hblank hline ⊢
  rw [List.mem_cons, not_or] at hline
  have hcut := h.value c (more ++ []) (Ne.symm hline.1) (hblank c rfl)
  rw [lengthOfLine_append hline.2 (by simp)] at hcut
  have hread := reads_one hcut
  rwa [List.append_nil] at hread

theorem Entry.isBlank_delimiter (e : Entry) : isBlank e.delimiter = false := by
  rcases e.isDelimiter with h | h <;> rw [h] <;> rfl

/-- What stands behind a key is split into the blanks, the delimiter and the value. -/
theorem Lexer.SplitsEntries.reads_afterKey (h : l.SplitsEntries delimiter value) (e : Entry) :
    l.Reads delimiter e.afterKey e.tokensAfterKey l.start [] := by
  have hdelimiter : ∀ c ∈ (e.delimiter :: (e.after ++ e.value)).head?, isBlank c = false := by
    intro c hc
    rw [← Option.mem_some.mp hc]
    exact e.isBlank_delimiter
  have hbefore := h.reads_blanks (.inl rfl) e.beforeBlank hdelimiter
  have hmark := reads_char (h.delimiter e.delimiter (e.after ++ e.value) e.isDelimiter)
  have hafter := h.reads_blanks (.inr rfl) e.afterBlank e.valueOpens
  exact hbefore.append (hmark.append (hafter.append (h.reads_value e)))

end

theorem isBlank_iff {c : Char} : isBlank c = true ↔ c = ' ' ∨ c = '\t' := by
  simp [isBlank]

theorem Properties.splitsEntries : Properties.lexer.SplitsEntries .delimiter .value where
  blanks s hs c rest hc := by
    rcases isBlank_iff.mp hc with rfl | rfl <;> rcases hs with rfl | rfl <;> rfl
  delimiter c rest hc := by
    rcases hc with rfl | rfl <;> rfl
  value c rest hc hblank := by
    show Properties.cut .value c rest = ⟨.value, lengthOfLine rest, .key⟩
    simp [Properties.cut, hc, hblank]

theorem Ini.splitsEntries : Ini.lexer.SplitsEntries .delimiter .value where
  blanks s hs c rest hc := by
    rcases isBlank_iff.mp hc with rfl | rfl <;> rcases hs with rfl | rfl <;> rfl
  delimiter c rest hc := by
    rcases hc with rfl | rfl <;> rfl
  value c rest hc hblank := by
    show Ini.cut .value c rest = ⟨.value, lengthOfLine rest, .key⟩
    unfold Ini.cut
    split <;> simp_all [isBlank]

/-! ## Keys -/

/-- The space or the equals sign at which a key of an INI file ends stands right behind the key. -/
def Entry.EndsIniKey (e : Entry) : Prop :=
  e.before.head? = some ' ' ∨ e.before = [] ∧ e.delimiter = '='

/-- A key ends at a blank or a delimiter. -/
theorem Entry.exists_afterKey (e : Entry) :
    ∃ c later, e.afterKey = c :: later ∧ Properties.endsKey c = true ∧
      (Ini.endsKey c = true ↔ e.EndsIniKey) := by
  unfold Entry.afterKey Entry.EndsIniKey
  rcases hbefore : e.before with _ | ⟨c, blanks⟩
  · refine ⟨e.delimiter, _, rfl, ?_⟩
    rcases e.isDelimiter with hd | hd <;> rw [hd] <;> decide
  · refine ⟨c, _, rfl, ?_⟩
    have hblank := e.beforeBlank c (by simp [hbefore])
    rcases isBlank_iff.mp hblank with rfl | rfl <;> simp [Properties.endsKey, Ini.endsKey, isBlank]

section

variable {e : Entry} {c : Char} {more : List Char}

/-- A key starts with no mark of a section or a comment. -/
theorem Entry.opens (h : e.key = c :: more) :
    c ≠ '[' ∧ c ≠ '#' ∧ c ≠ ';' ∧ (c = '/' → more.head? ≠ some '/') := by
  have hopens := e.keyOpens
  simp only [h, List.forall_mem_cons, List.cons_prefix_cons, List.nil_prefix, and_true] at hopens
  obtain ⟨hbracket, hnumber, hsemicolon, hslashes, -⟩ := hopens
  refine ⟨Ne.symm hbracket, Ne.symm hnumber, Ne.symm hsemicolon, ?_⟩
  rintro rfl hhead
  obtain ⟨later, rfl⟩ := List.head?_eq_some_iff.mp hhead
  exact hslashes ⟨rfl, List.prefix_append ['/'] later⟩

/-- The first character of a key makes no comment with what follows the key either. -/
theorem Entry.startsComment_eq (h : e.key = c :: more) :
    Properties.startsComment c (more ++ e.afterKey) = false := by
  obtain ⟨-, hnumber, hsemicolon, hslash⟩ := e.opens h
  obtain ⟨d, later, hafter, hd, -⟩ := e.exists_afterKey
  have hbehind : d ≠ '/' := by
    rintro rfl
    cases hd
  rw [hafter]
  cases more <;> simp_all [Properties.startsComment]

theorem Properties.cut_key (h : e.key = c :: more) :
    Properties.cut .key c (more ++ e.afterKey) =
      ⟨.key, lengthUntil Properties.endsKey (more ++ e.afterKey), .delimiter⟩ := by
  have hplain := e.keyPlain c (by simp [h])
  have hcomment := e.startsComment_eq h
  simp_all [Properties.cut, isBlank]

theorem Ini.cut_key (h : e.key = c :: more) :
    Ini.cut .key c (more ++ e.afterKey) =
      ⟨.key, lengthUntil Ini.endsKey (more ++ e.afterKey), .delimiter⟩ := by
  have hplain := e.keyPlain c (by simp [h])
  have hopens := e.opens h
  unfold Ini.cut
  split <;> simp_all

theorem Entry.not_endsKey {d : Char} (hd : d ∈ e.key) : Properties.endsKey d = false := by
  have hplain := e.keyPlain d hd
  simp_all [Properties.endsKey, isBlank]

theorem Ini.endsKey_le {d : Char} (h : Ini.endsKey d = true) : Properties.endsKey d = true := by
  simp only [Ini.endsKey, Properties.endsKey, isBlank, Bool.or_eq_true] at h ⊢
  tauto

/-- A lexer that ends keys at no other characters finds the end of the key if it stops right behind it. -/
theorem Entry.lengthUntil_key (h : e.key = c :: more) {stop : Char → Bool}
    (hstop : ∀ d, stop d = true → Properties.endsKey d = true) {d : Char} {later : List Char}
    (hafter : e.afterKey = d :: later) :
    lengthUntil stop (more ++ e.afterKey) = more.length ↔ stop d = true := by
  have hmore : ∀ b ∈ more, stop b = false := by
    intro b hb
    have hkey := e.not_endsKey (d := b) (by simp [h, hb])
    rw [← Bool.not_eq_true] at hkey ⊢
    exact fun hb' => hkey (hstop b hb')
  constructor
  · intro hlength
    have hhead : d ∈ ((more ++ e.afterKey).drop (lengthUntil stop (more ++ e.afterKey))).head? := by
      rw [hlength, List.drop_left, hafter]
      rfl
    exact stop_of_drop_lengthUntil hhead
  · intro hd
    refine lengthUntil_append hmore fun b hb => ?_
    rw [hafter] at hb
    rwa [← Option.mem_some.mp hb]

end

/-! ## Entries -/

theorem return_notMem_entry (e : Entry) : '\r' ∉ e.text := by
  have hkey : '\r' ∉ e.key := fun h => e.keyPlain _ h (by simp)
  have hbefore : '\r' ∉ e.before := fun h => by cases e.beforeBlank _ h
  have hafter : '\r' ∉ e.after := fun h => by cases e.afterBlank _ h
  have hdelimiter : '\r' ≠ e.delimiter := by
    rcases e.isDelimiter with h | h <;> rw [h] <;> decide
  simp [Entry.text, Entry.afterKey, hkey, hbefore, hafter, hdelimiter, e.valueOneLine.2]

theorem tokens_entry (l : Lexer) (e : Entry) :
    l.tokens (String.ofList e.text).toList = l.tokensFrom l.start e.text := by
  rw [Lexer.tokens, String.toList_ofList, withoutReturns_of_notMem (return_notMem_entry e)]

/-- An entry is split into its parts exactly if the first token goes up to the end of the key. -/
theorem Lexer.SplitsEntries.tokensFrom_eq_iff {l : Lexer} {delimiter value : l.State} {e : Entry}
    (h : l.SplitsEntries delimiter value) {c : Char} {more : List Char} (hkey : e.key = c :: more)
    {n : Nat} (hn : n ≤ (more ++ e.afterKey).length)
    (hcut : l.cut l.start c (more ++ e.afterKey) = ⟨.key, n, delimiter⟩) :
    l.tokensFrom l.start e.text = e.tokens ↔ n = more.length := by
  rw [Entry.text, Entry.tokens, hkey, List.cons_append]
  constructor
  · intro htokens
    rw [tokensFrom_cons, hcut] at htokens
    obtain ⟨hfirst, -⟩ := List.cons.inj htokens
    have htake := (List.cons.inj (congrArg Token.text hfirst)).2
    rw [← htake, List.length_take_of_le hn]
  · rintro rfl
    exact ((reads_one hcut).append (h.reads_afterKey e)).tokensFrom_of_all

/-- An entry is split into its parts by the lexer of properties files always, and by that of INI files
exactly if the key is followed by a space, or by an equals sign without blanks. -/
theorem entries_are_split_unless_an_ini_key_goes_on (e : Entry) :
    Language.properties.tokens (String.ofList e.text) = e.tokens ∧
      (Language.ini.tokens (String.ofList e.text) = e.tokens ↔ e.EndsIniKey) := by
  obtain ⟨c, more, hkey⟩ := List.exists_cons_of_ne_nil e.keyNonempty
  obtain ⟨d, later, hafter, hends, hini⟩ := e.exists_afterKey
  have hlength := fun stop => lengthUntil_le stop (more ++ e.afterKey)
  have hsplits := Properties.splitsEntries.tokensFrom_eq_iff hkey (hlength _) (Properties.cut_key hkey)
  have hsplits' := Ini.splitsEntries.tokensFrom_eq_iff hkey (hlength _) (Ini.cut_key hkey)
  rw [e.lengthUntil_key hkey (fun _ => id) hafter] at hsplits
  rw [e.lengthUntil_key hkey (fun _ => Ini.endsKey_le) hafter, hini] at hsplits'
  rw [Language.tokens_eq, Language.tokens_eq]
  exact ⟨(tokens_entry _ e).trans (hsplits.mpr hends), by rwa [← tokens_entry] at hsplits'⟩

/-- An entry with a colon right behind the key. -/
def colonEntry : Entry :=
  ⟨['a'], [], ':', [], ['b'], by simp, by simp, by decide, by simp, .inr rfl, by simp, by simp,
    by simp [isBlank], by simp⟩

/-- An entry with a tab in front of its delimiter. -/
def tabbedEntry : Entry :=
  ⟨['a'], ['\t'], '=', [], ['b'], by simp, by simp, by decide, by simp [isBlank], .inl rfl, by simp,
    by simp, by simp [isBlank], by simp⟩

/-- A colon or a tab behind a key of an INI file is read as a part of the key. -/
theorem an_ini_key_takes_in_a_colon_or_a_tab :
    (String.ofList colonEntry.text = "a:b" ∧
      Language.ini.tokens "a:b" = [⟨.key, ['a', ':', 'b']⟩] ∧
      Language.ini.tokens "a:b" ≠ colonEntry.tokens) ∧
    (String.ofList tabbedEntry.text = "a\t=b" ∧
      Language.ini.tokens "a\t=b" =
        [⟨.key, ['a', '\t']⟩, ⟨.delimiter, ['=']⟩, ⟨.value, ['b']⟩] ∧
      Language.ini.tokens "a\t=b" ≠ tabbedEntry.tokens) := by
  rw [Language.tokens_eq, Language.tokens_eq]
  decide +kernel

end WikiHtml.Highlight
