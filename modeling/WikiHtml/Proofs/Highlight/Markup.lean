-- Markup as it is written: character data, start tags with attributes, and end tags. The lexer reads
-- each piece of it as what it is, and behind each piece it is where it was before.
import Mathlib.Data.List.Chain
import WikiHtml.Proofs.Highlight.Reading

namespace WikiHtml.Highlight.Xml

/-! ## Letters and blanks -/

section

variable {a b : List (Nat × Nat)}

/-- No range of the one list meets one of the other. -/
def ApartRanges (a b : List (Nat × Nat)) : Prop :=
  ∀ r ∈ a, ∀ r' ∈ b, r.2 < r'.1 ∨ r'.2 < r.1

instance : Decidable (ApartRanges a b) :=
  inferInstanceAs (Decidable (∀ _ ∈ a, ∀ _ ∈ b, _ ∨ _))

theorem inRanges_iff {n : Nat} :
    Unicode.inRanges a n = true ↔ ∃ r ∈ a, r.1 ≤ n ∧ n ≤ r.2 := by
  simp [Unicode.inRanges]

theorem ApartRanges.not_inRanges (h : ApartRanges a b) {n : Nat}
    (ha : Unicode.inRanges a n = true) : Unicode.inRanges b n = false := by
  rw [← Bool.not_eq_true, inRanges_iff]
  obtain ⟨r, hr, hle, hge⟩ := inRanges_iff.mp ha
  rintro ⟨r', hr', hle', hge'⟩
  have hapart := h r hr r' hr'
  omega

end

theorem inRanges_of_isAlpha {c : Char} (h : c.isAlpha = true) :
    Unicode.inRanges [(0x41, 0x5a), (0x61, 0x7a)] c.toNat = true := by
  have hletter : (decide ('A'.val ≤ c.val ∧ c.val ≤ 'Z'.val) ||
      decide ('a'.val ≤ c.val) && decide (c.val ≤ 'z'.val)) = true := h
  simp only [Bool.or_eq_true, Bool.and_eq_true, decide_eq_true_eq, UInt32.le_iff_toNat_le]
    at hletter
  simp only [Unicode.inRanges, List.any_cons, List.any_nil, Bool.or_eq_true, Bool.and_eq_true,
    decide_eq_true_eq, Bool.or_false]
  exact hletter

theorem isWhiteSpace_of_isAlphabetic {c : Char} (h : Unicode.isAlphabetic c = true) :
    Unicode.isWhiteSpace c = false := by
  rw [Unicode.isAlphabetic, Bool.or_eq_true, Bool.and_eq_true] at h
  rcases h with h | ⟨-, h⟩
  · have hapart : ApartRanges [(0x41, 0x5a), (0x61, 0x7a)] Unicode.whiteSpaceRanges := by decide
    exact hapart.not_inRanges (inRanges_of_isAlpha h)
  · have hapart : ApartRanges Unicode.alphabeticRanges Unicode.whiteSpaceRanges := by
      decide +kernel
    exact hapart.not_inRanges h

/-! ## What is written -/

/-- A name: a letter or an underscore, and behind it letters, digits and some marks. -/
structure Name where
  first : Char
  more : List Char
  starts : Unicode.isAlphabetic first = true ∨ first = '_'
  goesOn : ∀ c ∈ more, Unicode.isAlphanumeric c = true ∨ c ∈ ['_', '-', '.', ':']

/-- Some spaces and tabs. -/
structure Blanks where
  text : List Char
  nonempty : text ≠ []
  blank : ∀ c ∈ text, c = ' ' ∨ c = '\t'

/-- A value within quotes, on one line. -/
structure Quoted where
  quote : Char
  content : List Char
  isQuote : quote = '"' ∨ quote = '\''
  closed : quote ∉ content
  oneLine : '\n' ∉ content ∧ '\r' ∉ content

/-- An attribute behind some blanks, with a value or without. -/
structure Attribute where
  gap : Blanks
  name : Name
  value : Option Quoted

/-- Character data without references, on one line. A `>` at the start would be taken for the end of a
tag. -/
structure Run where
  text : List Char
  nonempty : text ≠ []
  plain : ∀ c ∈ text, c ∉ ['<', '&', '\n', '\r']
  opens : text.head? ≠ some '>'

/-- A piece of markup. -/
inductive Piece where
  | run (run : Run)
  | startTag (name : Name) (attributes : List Attribute) (gap : Option Blanks) (empty : Bool)
  | endTag (name : Name)

/-- Whether a piece is character data. -/
def Piece.isRun : Piece → Bool
  | .run _ => true
  | _ => false

def Name.text (n : Name) : List Char :=
  n.first :: n.more

def Quoted.text (q : Quoted) : List Char :=
  q.quote :: (q.content ++ [q.quote])

/-- The blanks in front of the end of a tag. -/
def gapText (gap : Option Blanks) : List Char :=
  gap.elim [] Blanks.text

def Attribute.text (a : Attribute) : List Char :=
  a.gap.text ++ (a.name.text ++ a.value.elim [] fun v => '=' :: v.text)

/-- The end of a start tag, or of an empty tag. -/
def closing (empty : Bool) : List Char :=
  if empty then ['/', '>'] else ['>']

def Piece.text : Piece → List Char
  | .run r => r.text
  | .startTag name attributes gap empty =>
    '<' :: (name.text ++ (attributes.flatMap Attribute.text ++ (gapText gap ++ closing empty)))
  | .endTag name => '<' :: '/' :: (name.text ++ ['>'])

/-! ## How it reads -/

/-- A mark of a tag. -/
def markToken (c : Char) : Token :=
  ⟨.specialCharacter, [c]⟩

def Attribute.tokens (a : Attribute) : List Token :=
  ⟨.text, a.gap.text⟩ :: ⟨.attributeName, a.name.text⟩ ::
    a.value.elim [] fun v => [markToken '=', ⟨.attributeValue, v.text⟩]

def Piece.tokens : Piece → List Token
  | .run r => [⟨.text, r.text⟩]
  | .startTag name attributes gap empty =>
    markToken '<' :: ⟨.tag, name.text⟩ :: (attributes.flatMap Attribute.tokens ++
      (tokenIfAny .text (gapText gap) ++ (closing empty).map markToken))
  | .endTag name => [markToken '<', markToken '/', ⟨.tag, name.text⟩, markToken '>']

/-! ## One token -/

section

variable {c : Char} {rest : List Char}

theorem isNameStart_first (n : Name) : isNameStart n.first = true := by
  simpa [isNameStart] using n.starts

theorem isNameChar_more (n : Name) : ∀ c ∈ n.more, isNameChar c = true := by
  intro c hc
  simpa [isNameChar, or_assoc] using n.goesOn c hc

theorem isWhiteSpace_first (n : Name) : Unicode.isWhiteSpace n.first = false := by
  rcases n.starts with h | h
  · exact isWhiteSpace_of_isAlphabetic h
  · rw [h]
    decide

theorem ne_of_isNameStart {d : Char} (h : isNameStart c = true) (hd : isNameStart d = false) :
    c ≠ d := by
  rintro rfl
  rw [h] at hd
  cases hd

/-- A name starts with none of the marks that the lexer minds anywhere in a tag. -/
theorem ne_mark_of_isNameStart (h : isNameStart c = true) :
    ∀ d ∈ ['\n', '<', '/', '?', '!', '>', '&'], c ≠ d := by
  have hmarks : ['\n', '<', '/', '?', '!', '>', '&'].all (!isNameStart ·) = true := by decide
  intro d hd
  have hmark := List.all_eq_true.mp hmarks d hd
  exact ne_of_isNameStart h (by simpa using hmark)

theorem cut_tagName (h : isNameStart c = true) (rest : List Char) :
    cut .tag c rest = ⟨.tag, lengthUntil (!isNameChar ·) rest, .attributeName⟩ := by
  have hmark := ne_mark_of_isNameStart h
  simp only [List.forall_mem_cons] at hmark
  simp [cut, cutPlain, hmark, h]

theorem cut_attributeName (h : isNameStart c = true) (rest : List Char) :
    cut .attributeName c rest =
      ⟨.attributeName, lengthUntil (!isNameChar ·) rest, .attributeName⟩ := by
  have hmark := ne_mark_of_isNameStart h
  simp only [List.forall_mem_cons] at hmark
  simp [cut, cutPlain, hmark, h]

/-- Blanks in a tag go up to what is no white space. -/
theorem cut_gap (h : c = ' ' ∨ c = '\t') (rest : List Char) :
    cut .attributeName c rest = ⟨.text, lengthUntil (fun c => c == '<' || c == '&' || c == '\n' ||
      !Unicode.isWhiteSpace c) rest, .attributeName⟩ := by
  rcases h with rfl | rfl <;> rfl

theorem cut_quote (h : c = '"' ∨ c = '\'') (rest : List Char) :
    cut .attributeValue c rest = ⟨.attributeValue, quotedLength c rest, .attributeName⟩ := by
  rcases h with rfl | rfl <;> rfl

theorem cut_run (h : c ∉ ['<', '&', '\n', '\r']) (hc : c ≠ '>') (rest : List Char) :
    cut .text c rest = ⟨.text, lengthUntil (fun c => c == '<' || c == '&' || c == '\n' ||
      (Expect.text.inTag && !Unicode.isWhiteSpace c)) rest, .text⟩ := by
  simp only [List.mem_cons, not_or] at h
  simp [cut, cutPlain, h, hc]

/-- A quoted value goes through its second quote. -/
theorem quotedLength_append {quote : Char} {content : List Char} (hq : quote ∉ content)
    (hn : '\n' ∉ content) (hquote : quote ≠ '\n') (rest : List Char) :
    quotedLength quote (content ++ quote :: rest) = content.length + 1 := by
  induction content with
  | nil =>
    rw [List.nil_append, quotedLength, if_pos rfl]
    · rfl
    · exact hquote
  | cons c content ih =>
    rw [List.mem_cons, not_or] at hq hn
    rw [List.cons_append, quotedLength, if_neg (Ne.symm hq.1), ih hq.2 hn.2, List.length_cons]
    exact Ne.symm hn.1

end

/-! ## Parts of a tag -/

section

variable {rest : List Char}

/-- Behind a name comes no character of a name. -/
def EndsName (rest : List Char) : Prop :=
  ∀ c ∈ rest.head?, isNameChar c = false

/-- Behind blanks comes no white space. -/
def EndsGap (rest : List Char) : Prop :=
  ∀ c ∈ rest.head?, Unicode.isWhiteSpace c = false

theorem lengthUntil_name (n : Name) (h : EndsName rest) :
    lengthUntil (!isNameChar ·) (n.more ++ rest) = n.more.length :=
  lengthUntil_append (fun c hc => by rw [isNameChar_more n c hc, Bool.not_true])
    (fun c hc => by rw [h c hc, Bool.not_false])

theorem reads_tagName (n : Name) (h : EndsName rest) :
    lexer.Reads .tag (n.text ++ rest) [⟨.tag, n.text⟩] .attributeName rest := by
  have hcut := cut_tagName (isNameStart_first n) (n.more ++ rest)
  rw [lengthUntil_name n h] at hcut
  exact reads_one hcut

theorem reads_attributeName (n : Name) (h : EndsName rest) :
    lexer.Reads .attributeName (n.text ++ rest) [⟨.attributeName, n.text⟩] .attributeName rest := by
  have hcut := cut_attributeName (isNameStart_first n) (n.more ++ rest)
  rw [lengthUntil_name n h] at hcut
  exact reads_one hcut

theorem reads_gap (b : Blanks) (h : EndsGap rest) :
    lexer.Reads .attributeName (b.text ++ rest) [⟨.text, b.text⟩] .attributeName rest := by
  obtain ⟨c, more, htext⟩ := List.exists_cons_of_ne_nil b.nonempty
  have hblank := b.blank
  rw [htext] at hblank ⊢
  obtain ⟨hc, hmore⟩ := List.forall_mem_cons.mp hblank
  have hcut := cut_gap hc (more ++ rest)
  rw [lengthUntil_append] at hcut
  · exact reads_one hcut
  · intro d hd
    rcases hmore d hd with rfl | rfl <;> decide
  · intro d hd
    simp [h d hd]

theorem reads_value (q : Quoted) :
    lexer.Reads .attributeValue (q.text ++ rest) [⟨.attributeValue, q.text⟩] .attributeName rest := by
  have hquote : q.quote ≠ '\n' := by
    rcases q.isQuote with h | h <;> rw [h] <;> decide
  have hlength : quotedLength q.quote (q.content ++ [q.quote] ++ rest) =
      (q.content ++ [q.quote]).length := by
    rw [List.append_assoc, List.singleton_append,
      quotedLength_append q.closed q.oneLine.1 hquote, List.length_append, List.length_singleton]
  have hcut := cut_quote q.isQuote (q.content ++ [q.quote] ++ rest)
  rw [hlength] at hcut
  exact reads_one hcut

theorem reads_run (r : Run) (h : ∀ c ∈ rest.head?, c = '<') :
    lexer.Reads .text (r.text ++ rest) [⟨.text, r.text⟩] .text rest := by
  obtain ⟨c, more, htext⟩ := List.exists_cons_of_ne_nil r.nonempty
  have hplain := r.plain
  have hopens := r.opens
  rw [htext] at hplain hopens ⊢
  obtain ⟨hc, hmore⟩ := List.forall_mem_cons.mp hplain
  have hcut := cut_run hc (fun he => hopens (congrArg some he)) (more ++ rest)
  rw [lengthUntil_append] at hcut
  · exact reads_one hcut
  · intro d hd
    have := hmore d hd
    simp_all [Expect.inTag]
  · intro d hd
    rw [h d hd]
    rfl

end

/-! ## Tags -/

section

variable {rest : List Char}

/-- A mark, and what is expected behind it. -/
theorem reads_mark {c : Char} {s s' : Expect} (h : cut s c rest = ⟨.specialCharacter, 0, s'⟩) :
    lexer.Reads s (c :: rest) [markToken c] s' rest :=
  reads_char (l := lexer) h

theorem endsName_cons {c : Char} (h : isNameChar c = false) (rest : List Char) :
    EndsName (c :: rest) := by
  intro d hd
  rwa [← Option.mem_some.mp hd]

theorem endsGap_cons {c : Char} (h : Unicode.isWhiteSpace c = false) (rest : List Char) :
    EndsGap (c :: rest) := by
  intro d hd
  rwa [← Option.mem_some.mp hd]

theorem endsName_gap (b : Blanks) (rest : List Char) : EndsName (b.text ++ rest) := by
  obtain ⟨c, more, htext⟩ := List.exists_cons_of_ne_nil b.nonempty
  have hblank := b.blank c (by rw [htext]; exact List.mem_cons_self)
  rw [htext]
  refine endsName_cons ?_ _
  rcases hblank with rfl | rfl <;> decide

theorem reads_attribute (a : Attribute) (h : EndsName rest) :
    lexer.Reads .attributeName (a.text ++ rest) a.tokens .attributeName rest := by
  obtain ⟨gap, name, value⟩ := a
  have hgap := fun later => reads_gap gap (endsGap_cons (isWhiteSpace_first name) (name.more ++ later))
  cases value with
  | none =>
    simp only [Attribute.text, Attribute.tokens, Option.elim_none, List.append_nil,
      List.append_assoc]
    exact (hgap rest).append (reads_attributeName name h)
  | some value =>
    simp only [Attribute.text, Attribute.tokens, Option.elim_some, List.append_assoc,
      List.cons_append]
    have hequals : lexer.Reads .attributeName ('=' :: (value.text ++ rest)) [markToken '=']
        .attributeValue (value.text ++ rest) := reads_mark rfl
    exact (hgap _).append ((reads_attributeName name (endsName_cons (by decide) _)).append
      (hequals.append (reads_value value)))

theorem endsName_attributes (attributes : List Attribute) (h : EndsName rest) :
    EndsName (attributes.flatMap Attribute.text ++ rest) := by
  cases attributes with
  | nil => exact h
  | cons a attributes =>
    rw [List.flatMap_cons, Attribute.text, List.append_assoc, List.append_assoc]
    exact endsName_gap a.gap _

theorem reads_attributes (attributes : List Attribute) (h : EndsName rest) :
    lexer.Reads .attributeName (attributes.flatMap Attribute.text ++ rest)
      (attributes.flatMap Attribute.tokens) .attributeName rest := by
  induction attributes with
  | nil => exact .done
  | cons a attributes ih =>
    rw [List.flatMap_cons, List.append_assoc, List.flatMap_cons]
    exact (reads_attribute a (endsName_attributes attributes h)).append ih

theorem reads_closing (empty : Bool) :
    lexer.Reads .attributeName (closing empty ++ rest) ((closing empty).map markToken) .text rest := by
  cases empty with
  | false => exact reads_mark rfl
  | true =>
    have hslash : lexer.Reads .attributeName ('/' :: '>' :: rest) [markToken '/'] .tag
        ('>' :: rest) := reads_mark rfl
    exact hslash.append (reads_mark rfl)

theorem reads_tagEnd (gap : Option Blanks) (empty : Bool) :
    lexer.Reads .attributeName (gapText gap ++ (closing empty ++ rest))
      (tokenIfAny .text (gapText gap) ++ (closing empty).map markToken) .text rest := by
  cases gap with
  | none => exact reads_closing empty
  | some b =>
    have hends : EndsGap (closing empty ++ rest) := by
      cases empty <;> exact endsGap_cons (by decide) _
    have htokens : tokenIfAny .text (gapText (some b)) = [⟨.text, b.text⟩] := if_neg b.nonempty
    rw [htokens]
    exact (reads_gap b hends).append (reads_closing empty)

theorem endsName_tagEnd (gap : Option Blanks) (empty : Bool) (rest : List Char) :
    EndsName (gapText gap ++ (closing empty ++ rest)) := by
  cases gap with
  | none => cases empty <;> exact endsName_cons (by decide) _
  | some b => exact endsName_gap b _

/-- In front of a name or a slash a `<` starts a tag. -/
theorem cut_open {c : Char} (h : c ≠ '!') (rest : List Char) :
    cut .text '<' (c :: rest) = ⟨.specialCharacter, 0, .tag⟩ := by
  have hmark : ∀ mark, ('!' :: mark).isPrefixOf (c :: rest) = false := by
    intro mark
    rw [List.isPrefixOf, beq_eq_false_iff_ne.mpr (Ne.symm h), Bool.false_and]
  have hcomment : "!--".toList.isPrefixOf (c :: rest) = false := hmark _
  have hsection : "![CDATA[".toList.isPrefixOf (c :: rest) = false := hmark _
  show cutMark .text (c :: rest) = _
  unfold cutMark
  rw [hcomment, hsection]
  rfl

end

/-! ## Pieces -/

section

variable {rest : List Char}

theorem reads_piece (p : Piece) (h : p.isRun = true → ∀ c ∈ rest.head?, c = '<') :
    lexer.Reads .text (p.text ++ rest) p.tokens .text rest := by
  cases p with
  | run r => exact reads_run r (h rfl)
  | startTag name attributes gap empty =>
    have hname := ne_of_isNameStart (d := '!') (isNameStart_first name) (by decide)
    have hopen : lexer.Reads .text ('<' :: (name.text ++ (attributes.flatMap Attribute.text ++
        (gapText gap ++ (closing empty ++ rest))))) [markToken '<'] .tag _ :=
      reads_mark (cut_open hname _)
    simp only [Piece.text, Piece.tokens, List.cons_append, List.append_assoc]
    have hend := endsName_tagEnd gap empty rest
    exact hopen.append ((reads_tagName name (endsName_attributes attributes hend)).append
      ((reads_attributes attributes hend).append (reads_tagEnd gap empty)))
  | endTag name =>
    simp only [Piece.text, Piece.tokens, List.cons_append, List.append_assoc, List.nil_append]
    have hopen : lexer.Reads .text ('<' :: '/' :: (name.text ++ '>' :: rest)) [markToken '<'] .tag _ :=
      reads_mark (cut_open (by decide) _)
    have hslash : lexer.Reads .tag ('/' :: (name.text ++ '>' :: rest)) [markToken '/'] .tag _ :=
      reads_mark rfl
    exact hopen.append (hslash.append ((reads_tagName name (endsName_cons (by decide) _)).append
      (reads_mark rfl)))

theorem head_of_not_isRun {p : Piece} (h : p.isRun = false) : p.text.head? = some '<' := by
  cases p with
  | run r => cases h
  | startTag => rfl
  | endTag => rfl

/-- Of two pieces one after the other not both are character data. -/
def Apart (p q : Piece) : Prop :=
  ¬ (p.isRun = true ∧ q.isRun = true)

theorem reads_pieces {pieces : List Piece} (h : pieces.IsChain Apart) :
    lexer.Reads .text (pieces.flatMap Piece.text) (pieces.flatMap Piece.tokens) .text [] := by
  induction pieces with
  | nil => exact .done
  | cons p pieces ih =>
    obtain ⟨hnext, hpieces⟩ := List.isChain_cons.mp h
    rw [List.flatMap_cons, List.flatMap_cons]
    -- Behind character data the text is over, or a tag starts.
    refine (reads_piece p fun hrun c hc => ?_).append (ih hpieces)
    cases pieces with
    | nil => cases hc
    | cons q pieces =>
      have hq : q.isRun = false := by
        have hapart := hnext q rfl
        rw [Apart, hrun] at hapart
        simpa using hapart
      obtain ⟨more, hmore⟩ := List.head?_eq_some_iff.mp (head_of_not_isRun hq)
      rw [List.flatMap_cons, hmore] at hc
      exact (Option.mem_some.mp hc).symm

end

/-! ## Carriage returns -/

theorem return_not_mem_name (n : Name) : '\r' ∉ n.text := by
  intro h
  rcases List.mem_cons.mp h with h | h
  · exact ne_of_isNameStart (isNameStart_first n) (d := '\r') (by decide) h.symm
  · have hreturn := isNameChar_more n _ h
    revert hreturn
    decide

theorem return_not_mem_blanks (b : Blanks) : '\r' ∉ b.text := by
  intro h
  have hreturn := b.blank _ h
  revert hreturn
  decide

theorem return_not_mem_quoted (q : Quoted) : '\r' ∉ q.text := by
  have hquote : '\r' ≠ q.quote := by
    rcases q.isQuote with h | h <;> rw [h] <;> decide
  simp [Quoted.text, hquote, q.oneLine.2]

theorem return_not_mem_attribute (a : Attribute) : '\r' ∉ a.text := by
  obtain ⟨gap, name, value⟩ := a
  cases value with
  | none => simp [Attribute.text, return_not_mem_blanks, return_not_mem_name]
  | some value =>
    simp [Attribute.text, return_not_mem_blanks, return_not_mem_name, return_not_mem_quoted]

theorem return_not_mem_piece (p : Piece) : '\r' ∉ p.text := by
  cases p with
  | run r =>
    intro h
    simpa using r.plain _ h
  | startTag name attributes gap empty =>
    have hgap : '\r' ∉ gapText gap := by
      cases gap with
      | none => exact List.not_mem_nil
      | some b => exact return_not_mem_blanks b
    have hclosing : '\r' ∉ closing empty := by cases empty <;> decide
    simp [Piece.text, return_not_mem_name, return_not_mem_attribute, hgap, hclosing]
  | endTag name => simp [Piece.text, return_not_mem_name]

/-- Markup is read as it is written: the tokens are the character data, the marks, the names, the values
with their quotes, and the blanks of its pieces, in their order. -/
theorem markup_is_read_as_it_is_written {pieces : List Piece} (h : pieces.IsChain Apart) :
    Language.xml.tokens (String.ofList (pieces.flatMap Piece.text)) =
      pieces.flatMap Piece.tokens := by
  have hreturns : withoutReturns (pieces.flatMap Piece.text) = pieces.flatMap Piece.text := by
    refine List.filter_eq_self.mpr fun c hc => ?_
    obtain ⟨p, -, hp⟩ := List.mem_flatMap.mp hc
    rw [bne_iff_ne]
    rintro rfl
    exact return_not_mem_piece p hp
  rw [Language.tokens_eq]
  show lexer.tokensFrom .text (withoutReturns (String.ofList _).toList) = _
  rw [String.toList_ofList, hreturns, (reads_pieces h).tokensFrom_of_all]

/-- The name of a link. -/
def nameA : Name := ⟨'a', [], by decide, by simp⟩

/-- An empty tag with a value in which there is the end of a tag, text with marks, and an end tag. -/
def emptyTagAndText : List Piece :=
  [.startTag nameA [⟨⟨[' '], by decide, by simp⟩, nameA,
      some ⟨'"', ['/', '>'], by decide, by decide, by decide⟩⟩] none true,
    .run ⟨['=', '>', '/'], by decide, by simp, by decide⟩, .endTag nameA]

theorem marks_in_values_and_in_text_are_read_as_such :
    emptyTagAndText.IsChain Apart ∧
      String.ofList (emptyTagAndText.flatMap Piece.text) = "<a a=\"/>\"/>=>/</a>" ∧
      Language.xml.tokens "<a a=\"/>\"/>=>/</a>" =
        [markToken '<', ⟨.tag, ['a']⟩, ⟨.text, [' ']⟩, ⟨.attributeName, ['a']⟩, markToken '=',
          ⟨.attributeValue, ['"', '/', '>', '"']⟩, markToken '/', markToken '>',
          ⟨.text, ['=', '>', '/']⟩, markToken '<', markToken '/', ⟨.tag, ['a']⟩, markToken '>'] := by
  have hapart : emptyTagAndText.IsChain Apart := by
    refine .cons_cons ?_ (.cons_cons ?_ (.singleton _))
    · rintro ⟨hp, -⟩
      cases hp
    · rintro ⟨-, hq⟩
      cases hq
  have htext : String.ofList (emptyTagAndText.flatMap Piece.text) = "<a a=\"/>\"/>=>/</a>" := by
    decide +kernel
  refine ⟨hapart, htext, ?_⟩
  rw [← htext]
  exact markup_is_read_as_it_is_written hapart

end WikiHtml.Highlight.Xml
