-- Escaped text read back. Each character is kept or written as a reference, and what is read is the
-- text that was escaped, also if that looks escaped itself. Apostrophes may be replaced after all other
-- marks, and the blanks of code after them: what one pass writes, no later one touches.
import Mathlib.Data.List.Basic
import Mathlib.Logic.Function.Basic
import WikiHtml.Proofs.Text.Escape

namespace WikiHtml.Text

/-! ## Reading -/

/-- What stands behind the ampersand in the reference for a character, if it is written as one. -/
def referenceName? : Char → Option String
  | '&' => some "amp;"
  | '"' => some "quot;"
  | '\'' => some "apos;"
  | '<' => some "lt;"
  | '>' => some "gt;"
  | _ => none

/-- The characters that a text stands for: a reference stands for its character, and any other
character for itself. -/
def decodeChars : List Char → List Char
  | '&' :: 'a' :: 'm' :: 'p' :: ';' :: rest => '&' :: decodeChars rest
  | '&' :: 'q' :: 'u' :: 'o' :: 't' :: ';' :: rest => '"' :: decodeChars rest
  | '&' :: 'a' :: 'p' :: 'o' :: 's' :: ';' :: rest => '\'' :: decodeChars rest
  | '&' :: 'l' :: 't' :: ';' :: rest => '<' :: decodeChars rest
  | '&' :: 'g' :: 't' :: ';' :: rest => '>' :: decodeChars rest
  | c :: rest => c :: decodeChars rest
  | [] => []

/-- The text that an escaped text stands for. -/
def decode (s : String) : String :=
  String.ofList (decodeChars s.toList)

/-- Wherever an ampersand stands, it starts a reference. -/
def OnlyReferences (text : List Char) : Prop :=
  ∀ before after, text = before ++ '&' :: after →
    ∃ c name, referenceName? c = some name ∧ name.toList <+: after

theorem escapeChar_eq (c : Char) :
    escapeChar c = match referenceName? c with
      | some name => '&' :: name.toList
      | none => [c] := by
  unfold escapeChar
  split
  · rfl
  · rfl
  · rfl
  · rfl
  · rfl
  · rename_i hampersand hquote hapostrophe hless hgreater
    rw [referenceName?] <;> assumption

theorem decodeChars_cons {c : Char} (h : c ≠ '&') (rest : List Char) :
    decodeChars (c :: rest) = c :: decodeChars rest := by
  rw [decodeChars.eq_def]
  split <;> simp_all

theorem decodeChars_escapeChar (c : Char) (rest : List Char) :
    decodeChars (escapeChar c ++ rest) = c :: decodeChars rest := by
  unfold escapeChar
  split
  · rfl
  · rfl
  · rfl
  · rfl
  · rfl
  · rename_i hampersand _ _ _ _
    exact decodeChars_cons hampersand rest

theorem decodeChars_escapeChars (text : List Char) : decodeChars (escapeChars text) = text := by
  induction text with
  | nil => rfl
  | cons c text ih =>
    rw [escapeChars, List.flatMap_cons, decodeChars_escapeChar]
    exact congrArg (c :: ·) ih

theorem decode_escape (s : String) : decode (escape s) = s := by
  rw [decode, escape, String.toList_ofList, decodeChars_escapeChars, String.ofList_toList]

theorem OnlyReferences.append {front rest : List Char} (h : OnlyReferences rest)
    (hfront : '&' ∉ front) : OnlyReferences (front ++ rest) := by
  intro before after hsplit
  rcases List.append_eq_append_iff.mp hsplit with ⟨more, rfl, hrest⟩ | ⟨more, rfl, hmore⟩
  · exact h more after hrest
  · rcases more with _ | ⟨c, more⟩
    · exact h [] after hmore.symm
    · obtain ⟨rfl, -⟩ := List.cons.inj hmore
      exact absurd (by simp) hfront

theorem ampersand_not_mem_referenceName {c : Char} {name : String} (h : referenceName? c = some name) :
    '&' ∉ name.toList := by
  have hnames : ∀ name ∈ ["amp;", "quot;", "apos;", "lt;", "gt;"], '&' ∉ name.toList := by decide
  refine hnames name ?_
  unfold referenceName? at h
  split at h <;> cases h <;> simp

theorem OnlyReferences.escapeChar_append {rest : List Char} (h : OnlyReferences rest) (c : Char) :
    OnlyReferences (escapeChar c ++ rest) := by
  rw [escapeChar_eq]
  split
  · rename_i name hname
    intro before after hsplit
    rcases before with _ | ⟨d, before⟩
    · exact ⟨c, name, hname, rest, (List.cons.inj hsplit).2⟩
    · exact h.append (ampersand_not_mem_referenceName hname) before after (List.cons.inj hsplit).2
  · rename_i hnone
    refine h.append fun hm => ?_
    rw [← List.mem_singleton.mp hm] at hnone
    cases hnone

theorem onlyReferences_escapeChars (text : List Char) : OnlyReferences (escapeChars text) := by
  induction text with
  | nil =>
    intro before after hsplit
    exact absurd hsplit (by simp [escapeChars])
  | cons c text ih => exact ih.escapeChar_append c

/-! ## One pass after the other -/

/-- How a character is written in a quoted attribute with double quotes. -/
def attributeChar : Char → List Char
  | '&' => ['&', 'a', 'm', 'p', ';']
  | '<' => ['&', 'l', 't', ';']
  | '>' => ['&', 'g', 't', ';']
  | '"' => ['&', 'q', 'u', 'o', 't', ';']
  | c => [c]

/-- A function encodes texts for quoted attributes: it replaces the four characters that mean something
there, and keeps all others. -/
def EncodesAttributes (encode : String → String) : Prop :=
  ∀ s, (encode s).toList = s.toList.flatMap attributeChar

/-- A text in which some characters are replaced by a text. -/
def replaceChars (p : Char → Bool) (instead : String) (s : String) : String :=
  String.ofList (s.toList.flatMap fun c => if p c then instead.toList else [c])

/-- A text that is encoded for attributes first, and then has its apostrophes replaced if there are
any. -/
def escapeAfter (encode : String → String) (s : String) : String :=
  let encoded := encode s
  if '\'' ∈ encoded.toList then replaceChars (· == '\'') "&apos;" encoded else encoded

theorem replaceChars_of_none {p : Char → Bool} {instead s : String} (h : ∀ c ∈ s.toList, p c = false) :
    replaceChars p instead s = s := by
  have hsame : s.toList.flatMap (fun c => if p c then instead.toList else [c]) =
      s.toList.flatMap fun c => [c] :=
    List.flatMap_congr fun c hc => by rw [h c hc]; rfl
  rw [replaceChars, hsame, List.flatMap_singleton', String.ofList_toList]

theorem flatMap_attributeChar (c : Char) :
    (attributeChar c).flatMap (fun d => if d == '\'' then "&apos;".toList else [d]) =
      escapeChar c := by
  unfold escapeChar
  split
  · decide
  · decide
  · decide
  · decide
  · decide
  · rename_i hampersand hquote hapostrophe hless hgreater
    have hkept : attributeChar c = [c] := by rw [attributeChar] <;> assumption
    have hnone : (c == '\'') = false := beq_eq_false_iff_ne.mpr hapostrophe
    rw [hkept, List.flatMap_singleton, hnone]
    rfl

/-- The apostrophes that are left are those of the text, so it does not count that they come later. -/
theorem escapeAfter_eq {encode : String → String} (h : EncodesAttributes encode) (s : String) :
    escapeAfter encode s = escape s := by
  have hpasses : replaceChars (· == '\'') "&apos;" (encode s) = escape s := by
    rw [replaceChars, h, List.flatMap_assoc, escape, escapeChars]
    exact congrArg String.ofList (List.flatMap_congr fun c _ => flatMap_attributeChar c)
  unfold escapeAfter
  dsimp only
  split
  · exact hpasses
  · rename_i hnone
    rw [← hpasses, replaceChars_of_none]
    intro c hc
    rw [beq_eq_false_iff_ne]
    rintro rfl
    exact hnone hc

/-- Code is escaped first, and then its blanks are replaced. -/
theorem escapeCode_eq (s : String) :
    escapeCode s = replaceChars isCodeBlank "&nbsp;" (escape s) := by
  have hspace : nonBreakingSpace = "&nbsp;".toList := by decide
  have hblank : keepBlank = fun c => if isCodeBlank c then "&nbsp;".toList else [c] :=
    funext fun c => by rw [keepBlank, hspace]
  have hchars : (escape s).toList = escapeChars s.toList := String.toList_ofList
  rw [escapeCode, escapeCodeChars, hblank, replaceChars, hchars]

theorem isCodeBlank_of_mem_replaceChars {s : String} {c : Char}
    (h : c ∈ (replaceChars isCodeBlank "&nbsp;" s).toList) : isCodeBlank c = false := by
  rw [replaceChars, String.toList_ofList] at h
  obtain ⟨d, -, hd⟩ := List.mem_flatMap.mp h
  split at hd
  · exact (unmarked_of_all (by decide) c hd).2
  · rename_i hblank
    rw [List.mem_singleton.mp hd]
    exact Bool.eq_false_iff.mpr hblank

theorem isCodeBlank_iff {c : Char} :
    isCodeBlank c = true ↔ c ∈ [' ', '\t', '\n', '\x0b', '\x0c', '\r'] := by
  simp [isCodeBlank, or_assoc]

/-! ## Texts behind each other -/

theorem escape_append (s s' : String) : escape (s ++ s') = escape s ++ escape s' := by
  simp [escape, escapeChars]

theorem escapeCode_append (s s' : String) : escapeCode (s ++ s') = escapeCode s ++ escapeCode s' := by
  simp [escapeCode, escapeCodeChars, escapeChars]

/-- Escaped text holds no mark, and an ampersand only where a reference starts; it is read back as the
text that was escaped, so that different texts are written differently. Escaped code is escaped text
with each of the six blanks replaced, and holds none of them. Both are written text by text. It does
not count that the apostrophes are replaced only after a text was encoded for attributes. -/
theorem escaped_text_is_safe_and_read_back {encode : String → String}
    (h : EncodesAttributes encode) :
    (∀ s, escapeAfter encode s = escape s) ∧
      (∀ s, (∀ c ∈ (escape s).toList, c ∉ ['<', '>', '"', '\'']) ∧
        OnlyReferences (escape s).toList ∧ decode (escape s) = s) ∧
      Function.Injective escape ∧ (∀ s s', escape (s ++ s') = escape s ++ escape s') ∧
      (∀ s, escapeCode s = replaceChars (· ∈ [' ', '\t', '\n', '\x0b', '\x0c', '\r']) "&nbsp;"
          (escapeAfter encode s) ∧
        ∀ c ∈ (escapeCode s).toList, c ∉ [' ', '\t', '\n', '\x0b', '\x0c', '\r']) ∧
      ∀ s s', escapeCode (s ++ s') = escapeCode s ++ escapeCode s' := by
  have hblank : isCodeBlank = fun c => decide (c ∈ [' ', '\t', '\n', '\x0b', '\x0c', '\r']) :=
    funext fun c => Bool.eq_iff_iff.mpr (by rw [isCodeBlank_iff, decide_eq_true_iff])
  have hmark : ∀ s, ∀ c ∈ (escape s).toList, c ∉ ['<', '>', '"', '\''] := by
    intro s c hc
    rw [escape, String.toList_ofList] at hc
    simpa [isMark, and_assoc] using isMark_of_mem_escapeChars hc
  have honly : ∀ s, OnlyReferences (escape s).toList := by
    intro s
    rw [escape, String.toList_ofList]
    exact onlyReferences_escapeChars _
  have hcode : ∀ s, ∀ c ∈ (escapeCode s).toList,
      c ∉ [' ', '\t', '\n', '\x0b', '\x0c', '\r'] := by
    intro s c hc
    rw [escapeCode_eq] at hc
    rw [← isCodeBlank_iff, isCodeBlank_of_mem_replaceChars hc]
    exact Bool.false_ne_true
  refine ⟨escapeAfter_eq h, fun s => ⟨hmark s, honly s, decode_escape s⟩,
    Function.LeftInverse.injective decode_escape, escape_append, fun s => ⟨?_, hcode s⟩,
    escapeCode_append⟩
  rw [← hblank, escapeAfter_eq h, escapeCode_eq]

/-- A text encoded for attributes. -/
def encodeAttribute (s : String) : String :=
  String.ofList (s.toList.flatMap attributeChar)

theorem a_text_that_looks_escaped_is_read_back :
    EncodesAttributes encodeAttribute ∧
      escapeAfter encodeAttribute "&lt;'" = "&amp;lt;&apos;" ∧
      decode (escape "&lt;'") = "&lt;'" := by
  have hencode : EncodesAttributes encodeAttribute := fun s => String.toList_ofList
  obtain ⟨hpasses, hread, -⟩ := escaped_text_is_safe_and_read_back hencode
  exact ⟨hencode, (hpasses "&lt;'").trans (by decide), (hread "&lt;'").2.2⟩

end WikiHtml.Text
