-- HTML read as far as its tags go. A reader goes through the characters and keeps the open tags on a
-- stack; it refuses a `<` or `>` that belongs to no tag, a tag it does not know, and an end tag that
-- is not that of the innermost open tag.
import Mathlib.Data.List.Basic
import WikiHtml.Html.Markup
import WikiHtml.Proofs.Highlight.Presentation

namespace WikiHtml.Html

/-! ## Reading -/

/-- The names of the tags that stand alone. -/
def voidTags : List String := ["br", "hr", "img", "input"]

/-- The names of the tags that come in pairs. -/
def pairedTags : List String :=
  ["a", "b", "div", "font", "form", "h1", "h2", "h3", "i", "li", "ol", "p", "span", "strike", "table",
   "td", "th", "tr", "tt", "u", "ul"]

/-- Where a reader is: between tags, in the name of a tag, or among its attributes, there perhaps in
the quotes around a value. -/
inductive Position where
  | text
  | name (read : List Char)
  | attributes (name : List Char) (quoted : Bool)
  deriving DecidableEq, Repr

/-- What a reader knows: the tags it has read, the last one first, an end tag with its slash; and the
names of the open tags, the innermost first. -/
structure Reader where
  tags : List String
  opened : List String
  position : Position
  deriving DecidableEq, Repr

namespace Reader

/-- Nothing is read yet. -/
def start : Reader := ⟨[], [], .text⟩

/-- The reader at the end of a tag. -/
def finish? (r : Reader) : List Char → Option Reader
  | '/' :: name =>
    if r.opened.head? = some (String.ofList name) then
      some ⟨String.ofList ('/' :: name) :: r.tags, r.opened.tail, .text⟩
    else none
  | name =>
    if String.ofList name ∈ voidTags then some ⟨String.ofList name :: r.tags, r.opened, .text⟩
    else if String.ofList name ∈ pairedTags then
      some ⟨String.ofList name :: r.tags, String.ofList name :: r.opened, .text⟩
    else none

/-- The reader after a character, unless that must not stand there. -/
def step? (r : Reader) (c : Char) : Option Reader :=
  match r.position with
  | .text =>
    if c = '<' then some { r with position := .name [] }
    else if c = '>' then none
    else some r
  | .name read =>
    if c = '<' then none
    else if c = '>' then r.finish? read
    else if c = ' ' then some { r with position := .attributes read false }
    else some { r with position := .name (read ++ [c]) }
  | .attributes name quoted =>
    if c = '<' then none
    else if c = '"' then some { r with position := .attributes name (!quoted) }
    else if c = '>' then if quoted then none else r.finish? name
    else some r

end Reader

/-- The tags of HTML in their order, if every `<` and `>` in it belongs to a tag, each end tag closes
the innermost open tag, and all tags are closed. -/
def readTags? (html : String) : Option (List String) :=
  match html.toList.foldlM Reader.step? .start with
  | some ⟨tags, [], .text⟩ => some tags.reverse
  | _ => none

/-- A text takes the reader from one place to another. -/
def Reads (text : List Char) (r r' : Reader) : Prop :=
  text.foldlM Reader.step? r = some r'

section

variable {first second text : List Char} {r r' r'' : Reader} {tags opened : List String}

theorem Reads.append (h : Reads first r r') (h' : Reads second r' r'') :
    Reads (first ++ second) r r'' := by
  unfold Reads at *
  rw [List.foldlM_append, h]
  exact h'

theorem reads_nil (r : Reader) : Reads [] r r :=
  rfl

theorem Reads.cons {c : Char} (h : r.step? c = some r') (h' : Reads text r' r'') :
    Reads (c :: text) r r'' := by
  unfold Reads at *
  rw [List.foldlM_cons, h]
  exact h'

/-! ## Text and attributes -/

/-- A text without `<` and `>`. -/
def Unmarked (text : List Char) : Prop :=
  '<' ∉ text ∧ '>' ∉ text

theorem unmarked_append (h : Unmarked first) (h' : Unmarked second) :
    Unmarked (first ++ second) := by
  unfold Unmarked at *
  rw [List.mem_append, List.mem_append]
  tauto

theorem unmarked_of_isMark (h : ∀ c ∈ text, Text.isMark c = false) : Unmarked text :=
  ⟨fun hc => Bool.noConfusion (h _ hc), fun hc => Bool.noConfusion (h _ hc)⟩

theorem unmarked_escape (s : String) : Unmarked (Text.escape s).toList := by
  rw [Text.escape, String.toList_ofList]
  exact unmarked_of_isMark fun c hc => Text.isMark_of_mem_escapeChars hc

/-- Between tags a reader passes over text. -/
theorem reads_text (h : Unmarked text) : Reads text ⟨tags, opened, .text⟩ ⟨tags, opened, .text⟩ := by
  induction text with
  | nil => exact reads_nil _
  | cons c text ih =>
    unfold Unmarked at h
    simp only [List.mem_cons, not_or] at h
    refine Reads.cons ?_ (ih ⟨h.1.2, h.2.2⟩)
    simp only [Reader.step?, if_neg (Ne.symm h.1.1), if_neg (Ne.symm h.2.1)]

/-- A text that a reader passes over among the attributes of a tag, in which the quotes match. -/
def AttributeText (text : List Char) : Prop :=
  ∀ tags opened name, Reads text ⟨tags, opened, .attributes name false⟩
    ⟨tags, opened, .attributes name false⟩

theorem attributeText_empty : AttributeText "".toList :=
  fun _ _ _ => reads_nil _

theorem AttributeText.append (h : AttributeText first) (h' : AttributeText second) :
    AttributeText (first ++ second) :=
  fun tags opened name => (h tags opened name).append (h' tags opened name)

/-- Among attributes a reader passes over text without marks, in quotes or not. -/
theorem reads_attributes {name : List Char} {quoted : Bool}
    (h : ∀ c ∈ text, Text.isMark c = false) :
    Reads text ⟨tags, opened, .attributes name quoted⟩ ⟨tags, opened, .attributes name quoted⟩ := by
  induction text with
  | nil => exact reads_nil _
  | cons c text ih =>
    refine Reads.cons ?_ (ih fun d hd => h d (List.mem_cons_of_mem c hd))
    have hc := h c List.mem_cons_self
    simp only [Text.isMark, Bool.or_eq_false_iff, beq_eq_false_iff_ne] at hc
    obtain ⟨⟨⟨hless, hgreater⟩, hquote⟩, -⟩ := hc
    simp only [Reader.step?, if_neg hless, if_neg hgreater, if_neg hquote]

theorem attributeText_blank : AttributeText [' '] :=
  fun _ _ _ => rfl

theorem attributeText_attr (name value : String) : AttributeText (attr name value).toList := by
  intro tags opened tag
  have hname : Reads (Text.escapeChars name.toList) ⟨tags, opened, .attributes tag false⟩
      ⟨tags, opened, .attributes tag false⟩ :=
    reads_attributes fun c hc => Text.isMark_of_mem_escapeChars hc
  have hvalue : Reads (Text.escapeChars value.toList) ⟨tags, opened, .attributes tag true⟩
      ⟨tags, opened, .attributes tag true⟩ :=
    reads_attributes fun c hc => Text.isMark_of_mem_escapeChars hc
  have hopening : Reads ['=', '"'] ⟨tags, opened, .attributes tag false⟩
      ⟨tags, opened, .attributes tag true⟩ := rfl
  have hclosing : Reads ['"'] ⟨tags, opened, .attributes tag true⟩
      ⟨tags, opened, .attributes tag false⟩ := rfl
  simp only [attr, Text.escape, String.toList_append, String.toList_ofList]
  exact ((hname.append hopening).append hvalue).append hclosing

/-- Attribute texts with blanks between them. -/
theorem attributeText_intercalate {texts : List String}
    (h : ∀ s ∈ texts, AttributeText s.toList) :
    AttributeText (" ".intercalate texts).toList := by
  induction texts with
  | nil => exact attributeText_empty
  | cons s rest ih =>
    have hs := h s List.mem_cons_self
    by_cases hrest : rest = []
    · subst hrest
      rw [String.intercalate_singleton]
      exact hs
    · rw [String.intercalate_cons_of_ne_nil hrest, String.toList_append, String.toList_append]
      exact (hs.append attributeText_blank).append
        (ih fun t ht => h t (List.mem_cons_of_mem s ht))

theorem attributeText_attrs (pairs : List (String × String)) :
    AttributeText (attrs pairs).toList := by
  refine attributeText_intercalate fun s hs => ?_
  obtain ⟨⟨name, value⟩, -, rfl⟩ := List.mem_map.mp hs
  exact attributeText_attr name value

/-! ## Tags -/

/-- A text that a reader takes for a part of the name of a tag. -/
def NameText (text : List Char) : Prop :=
  ∀ c ∈ text, c ≠ '<' ∧ c ≠ '>' ∧ c ≠ ' '

theorem nameText_of_mem {name : String} (h : name ∈ voidTags ∨ name ∈ pairedTags) :
    NameText name.toList ∧ name.toList.head? ≠ some '/' := by
  have hall : ∀ name ∈ voidTags ++ pairedTags,
      (name.toList.all fun c => c != '<' && (c != '>' && c != ' ')) = true ∧
        name.toList.head? ≠ some '/' := by
    decide
  obtain ⟨hchars, hhead⟩ := hall name (List.mem_append.mpr h)
  exact ⟨fun c hc => by simpa using List.all_eq_true.mp hchars c hc, hhead⟩

theorem reads_name {read : List Char} (h : NameText text) :
    Reads text ⟨tags, opened, .name read⟩ ⟨tags, opened, .name (read ++ text)⟩ := by
  induction text generalizing read with
  | nil => rw [List.append_nil]; exact reads_nil _
  | cons c text ih =>
    obtain ⟨hless, hgreater, hblank⟩ := h c List.mem_cons_self
    have hrest : Reads text ⟨tags, opened, .name (read ++ [c])⟩
        ⟨tags, opened, .name (read ++ [c] ++ text)⟩ :=
      ih fun d hd => h d (List.mem_cons_of_mem c hd)
    rw [List.append_assoc, List.singleton_append] at hrest
    refine Reads.cons ?_ hrest
    simp only [Reader.step?, if_neg hless, if_neg hgreater, if_neg hblank]

/-- A tag with a name and attributes goes to its end. -/
theorem reads_startTag {name attributes : String} (hname : NameText name.toList)
    (hattributes : AttributeText attributes.toList)
    (h : (⟨tags, opened, .text⟩ : Reader).finish? name.toList = some r) :
    Reads (startTag name attributes).toList ⟨tags, opened, .text⟩ r := by
  have hopening : Reads ['<'] ⟨tags, opened, .text⟩ ⟨tags, opened, .name []⟩ := rfl
  have hread := hopening.append (reads_name hname)
  have hend : ∀ position, (⟨tags, opened, position⟩ : Reader).finish? name.toList = some r := by
    intro position
    rw [← h]
    unfold Reader.finish?
    rfl
  unfold startTag
  split
  · simp only [String.toList_append]
    exact hread.append (Reads.cons (hend (.name name.toList)) (reads_nil r))
  · simp only [String.toList_append]
    have hblank : Reads [' '] ⟨tags, opened, .name name.toList⟩
        ⟨tags, opened, .attributes name.toList false⟩ := rfl
    exact ((hread.append hblank).append (hattributes tags opened name.toList)).append
      (Reads.cons (hend (.attributes name.toList false)) (reads_nil r))

theorem finish?_of_head? {name : List Char} (h : name.head? ≠ some '/') :
    r.finish? name =
      if String.ofList name ∈ voidTags then some ⟨String.ofList name :: r.tags, r.opened, .text⟩
      else if String.ofList name ∈ pairedTags then
        some ⟨String.ofList name :: r.tags, String.ofList name :: r.opened, .text⟩
      else none := by
  unfold Reader.finish?
  split
  · exact absurd rfl h
  · rfl

theorem reads_voidTag {name attributes : String} (hname : name ∈ voidTags)
    (hattributes : AttributeText attributes.toList) :
    Reads (startTag name attributes).toList ⟨tags, opened, .text⟩
      ⟨name :: tags, opened, .text⟩ := by
  obtain ⟨htext, hhead⟩ := nameText_of_mem (.inl hname)
  refine reads_startTag htext hattributes ?_
  rw [finish?_of_head? hhead, String.ofList_toList, if_pos hname]

theorem reads_pairedTag {name attributes : String} (hname : name ∈ pairedTags)
    (hattributes : AttributeText attributes.toList) :
    Reads (startTag name attributes).toList ⟨tags, opened, .text⟩
      ⟨name :: tags, name :: opened, .text⟩ := by
  obtain ⟨htext, hhead⟩ := nameText_of_mem (.inr hname)
  have hvoid : ∀ name ∈ pairedTags, name ∉ voidTags := by decide
  refine reads_startTag htext hattributes ?_
  rw [finish?_of_head? hhead, String.ofList_toList, if_neg (hvoid name hname), if_pos hname]

/-- An end tag closes the innermost open tag. -/
theorem reads_endTag {name : String} (hname : name ∈ pairedTags) :
    Reads (endTag name).toList ⟨tags, name :: opened, .text⟩ ⟨("/" ++ name) :: tags, opened, .text⟩ := by
  obtain ⟨htext, -⟩ := nameText_of_mem (.inr hname)
  have hopening : Reads ['<', '/'] ⟨tags, name :: opened, .text⟩
      ⟨tags, name :: opened, .name ['/']⟩ := rfl
  have hrest : Reads name.toList ⟨tags, name :: opened, .name ['/']⟩
      ⟨tags, name :: opened, .name (['/'] ++ name.toList)⟩ := reads_name htext
  have hread := hopening.append hrest
  have hend : (⟨tags, name :: opened, .name (['/'] ++ name.toList)⟩ : Reader).step? '>' =
      some ⟨("/" ++ name) :: tags, opened, .text⟩ := by
    have hslash : String.ofList ('/' :: name.toList) = "/" ++ name := by
      rw [← String.toList_inj, String.toList_ofList, String.toList_append]
      rfl
    rw [← hslash]
    simp only [Reader.step?, Reader.finish?, List.singleton_append, List.head?_cons,
      String.ofList_toList, List.tail_cons, if_true, if_neg (show '>' ≠ '<' by decide)]
  unfold endTag
  simp only [String.toList_append]
  exact hread.append (Reads.cons hend (reads_nil _))

/-! ## Pieces of HTML -/

/-- Two texts with the same tags, which are all closed in them. -/
def SameTags (first second : List Char) : Prop :=
  ∀ tags opened, ∃ tags', Reads first ⟨tags, opened, .text⟩ ⟨tags', opened, .text⟩ ∧
    Reads second ⟨tags, opened, .text⟩ ⟨tags', opened, .text⟩

section

variable {first' second' : List Char} {name attributes attributes' : String}

theorem sameTags_unmarked (h : Unmarked first) (h' : Unmarked second) : SameTags first second :=
  fun tags _ => ⟨tags, reads_text h, reads_text h'⟩

theorem SameTags.append (h : SameTags first second) (h' : SameTags first' second') :
    SameTags (first ++ first') (second ++ second') := by
  intro tags opened
  obtain ⟨tags', hf, hs⟩ := h tags opened
  obtain ⟨tags'', hf', hs'⟩ := h' tags' opened
  exact ⟨tags'', hf.append hf', hs.append hs'⟩

theorem sameTags_voidTag (hname : name ∈ voidTags) (h : AttributeText attributes.toList)
    (h' : AttributeText attributes'.toList) :
    SameTags (startTag name attributes).toList (startTag name attributes').toList :=
  fun tags _ => ⟨name :: tags, reads_voidTag hname h, reads_voidTag hname h'⟩

/-- Texts with the same tags, each of them in a tag of its own. -/
theorem SameTags.inTag (hname : name ∈ pairedTags) (ha : AttributeText attributes.toList)
    (ha' : AttributeText attributes'.toList) (h : SameTags first second) :
    SameTags ((startTag name attributes).toList ++ first ++ (endTag name).toList)
      ((startTag name attributes').toList ++ second ++ (endTag name).toList) := by
  intro tags opened
  obtain ⟨tags', hf, hs⟩ := h (name :: tags) (name :: opened)
  exact ⟨("/" ++ name) :: tags',
    ((reads_pairedTag hname ha).append hf).append (reads_endTag hname),
    ((reads_pairedTag hname ha').append hs).append (reads_endTag hname)⟩

theorem sameTags_flatMap {α : Type} {f : α → List Char} {xs : List α}
    (h : ∀ x ∈ xs, SameTags (f x) (f x)) : SameTags (xs.flatMap f) (xs.flatMap f) := by
  induction xs with
  | nil => exact fun tags _ => ⟨tags, reads_nil _, reads_nil _⟩
  | cons x rest ih =>
    rw [List.flatMap_cons]
    exact (h x List.mem_cons_self).append (ih fun y hy => h y (List.mem_cons_of_mem x hy))

end

/-! ## Code -/

theorem sameTags_lineBreakHtml :
    SameTags Highlight.lineBreakHtml Highlight.lineBreakHtml := by
  have htag : SameTags (startTag "br" "").toList (startTag "br" "").toList :=
    sameTags_voidTag (by decide) attributeText_empty attributeText_empty
  have hbreak : Unmarked ['\n'] := ⟨by decide, by decide⟩
  exact htag.append (sameTags_unmarked hbreak hbreak)

/-- The start tag around a token is one with a class. -/
theorem spanStart_eq (language : Highlight.Language) (name : String) :
    Highlight.spanStart language name = (startTag "span"
      ("class=\"code-" ++ language.cssName ++ "-" ++ name ++ "\"")).toList := by
  have hfixed : "<span class=\"code-".toList =
      "<".toList ++ ("span".toList ++ (" ".toList ++ "class=\"code-".toList)) := by decide
  have hnonempty : "class=\"code-" ++ language.cssName ++ "-" ++ name ++ "\"" ≠ "" := by
    intro h
    have := congrArg String.toList h
    simp at this
  unfold Highlight.spanStart startTag
  rw [if_neg hnonempty, hfixed]
  simp only [String.toList_append, List.append_assoc]
  rfl

theorem attributeText_class (language : Highlight.Language) {kind : Highlight.TokenKind}
    {name : String} (h : kind.cssName = some name) :
    AttributeText ("class=\"code-" ++ language.cssName ++ "-" ++ name ++ "\"").toList := by
  intro tags opened tag
  have hopening : Reads "class=\"code-".toList ⟨tags, opened, .attributes tag false⟩
      ⟨tags, opened, .attributes tag true⟩ := rfl
  have hhyphen : Reads "-".toList ⟨tags, opened, .attributes tag true⟩
      ⟨tags, opened, .attributes tag true⟩ := rfl
  have hclosing : Reads "\"".toList ⟨tags, opened, .attributes tag true⟩
      ⟨tags, opened, .attributes tag false⟩ := rfl
  have hlanguage : Reads language.cssName.toList ⟨tags, opened, .attributes tag true⟩
      ⟨tags, opened, .attributes tag true⟩ :=
    reads_attributes (Highlight.isMark_of_mem_cssName language)
  have hkind : Reads name.toList ⟨tags, opened, .attributes tag true⟩
      ⟨tags, opened, .attributes tag true⟩ :=
    reads_attributes (Highlight.isMark_of_mem_kindName h)
  simp only [String.toList_append]
  exact (((hopening.append hlanguage).append hhyphen).append hkind).append hclosing

theorem sameTags_token (language : Highlight.Language) (token : Highlight.Token) :
    SameTags (token.html language) (token.html language) := by
  have htext : Unmarked (Text.escapeCodeChars token.text) :=
    unmarked_of_isMark fun c hc => Text.isMark_of_mem_escapeCodeChars hc
  unfold Highlight.Token.html
  split
  · exact sameTags_lineBreakHtml
  dsimp only
  split
  · rename_i name hname
    have hclass := attributeText_class language hname
    rw [spanStart_eq]
    exact (sameTags_unmarked htext htext).inTag (by decide) hclass hclass
  · exact sameTags_unmarked htext htext

/-- In a code block all tags are closed, highlighted or not. -/
theorem sameTags_code (language : Option String) (code : String) :
    SameTags (Highlight.html language code).toList (Highlight.html language code).toList := by
  unfold Highlight.html
  split
  · unfold Highlight.Language.html
    rw [String.toList_ofList]
    exact sameTags_flatMap fun token _ => sameTags_token _ token
  · unfold Highlight.plain
    rw [String.toList_ofList]
    refine sameTags_flatMap fun c hc => ?_
    have hmark : Text.isMark c = false := by
      rw [Text.escape, String.toList_ofList] at hc
      exact Text.isMark_of_mem_escapeChars hc
    unfold Highlight.plainChar
    split
    · exact sameTags_lineBreakHtml
    split
    · exact sameTags_unmarked ⟨List.not_mem_nil, List.not_mem_nil⟩
        ⟨List.not_mem_nil, List.not_mem_nil⟩
    · have htext : Unmarked (Text.keepBlank c) :=
        unmarked_of_isMark fun d hd => Text.isMark_of_mem_keepBlank hmark hd
      exact sameTags_unmarked htext htext

end

end WikiHtml.Html
