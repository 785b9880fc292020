-- What is called on a writer. After any calls, what has been written leaves those tags open that the
-- writer holds open, and each tag that is closed in it is closed by its own end. A call that closes
-- tags closes those that came after a given call, the last one first.
import WikiHtml.Proofs.Html.Messages
import WikiHtml.Proofs.Html.Scan

namespace WikiHtml.Html

/-! ## Calls -/

/-- What is called on a writer. Another writer, whose lines are taken over, is given by what was
called on it. -/
inductive Call where
  | text (s : String)
  | newLine
  | startLine
  | openTag (name attributes : String)
  | openDiv (cssClass attributes : Option String)
  | openSpan (cssClass : String)
  | openForm (name action : Option String) (method : FormMethod)
  | closeTag
  | closeTo (depth : Nat)
  | absorb (calls : List Call)

mutual

/-- A writer after a call. -/
def Writer.call (w : Writer) : Call → Writer
  | .text s => w.text s
  | .newLine => w.newLine
  | .startLine => w.startLine
  | .openTag name attributes => w.openTag name attributes
  | .openDiv cssClass attributes => w.openDiv cssClass attributes
  | .openSpan cssClass => w.openSpan cssClass
  | .openForm name action method => w.openForm name action method
  | .closeTag => w.closeTag
  | .closeTo depth => w.closeTo depth
  | .absorb calls => w.absorb (Writer.calls .empty calls)

/-- A writer after calls, in their order. -/
def Writer.calls (w : Writer) : List Call → Writer
  | [] => w
  | call :: rest => Writer.calls (w.call call) rest

end

/-- A name that is read back as it was written. -/
structure IsTagName (name : String) : Prop where
  nameText : NameText name.toList
  noSlash : name.toList.head? ≠ some '/'
  noBreak : name ≠ "br"

theorem isTagName_of_mem {name : String} (h : name ∈ pairedTags) : IsTagName name := by
  obtain ⟨htext, hhead⟩ := nameText_of_mem (.inr h)
  have hbreak : "br" ∉ pairedTags := by decide
  exact ⟨htext, hhead, fun hname => hbreak (hname ▸ h)⟩

/-- A call with texts that have no tags, with attributes that have no marks, and with names of tags
of some kind; and so for other writers. -/
inductive Call.Fits (named : String → Prop) : Call → Prop
  | text {s : String} (h : '<' ∉ s.toList) : Fits named (.text s)
  | newLine : Fits named .newLine
  | startLine : Fits named .startLine
  | openTag {name attributes : String} (hname : named name) (h : Unmarked attributes.toList) :
      Fits named (.openTag name attributes)
  | openDiv {cssClass attributes : Option String}
      (h : ∀ text ∈ attributes, Unmarked text.toList) : Fits named (.openDiv cssClass attributes)
  | openSpan (cssClass : String) : Fits named (.openSpan cssClass)
  | openForm (name action : Option String) (method : FormMethod) :
      Fits named (.openForm name action method)
  | closeTag : Fits named .closeTag
  | closeTo (depth : Nat) : Fits named (.closeTo depth)
  | absorb {calls : List Call} (h : ∀ call ∈ calls, Fits named call) : Fits named (.absorb calls)

/-! ## Tags that are open -/

/-- The name in a start tag, up to a blank or the end. -/
def tagName (tag : String) : String :=
  String.ofList ((tag.toList.drop 1).takeWhile fun c => c != ' ' && c != '>')

/-- The open tags after the end of one, if it is that of the innermost, which comes first. -/
def endOf? (tag : String) : List String → Option (List String)
  | [] => none
  | name :: outer => if tag = endTag name then some outer else none

/-- The open tags after another tag, unless it is the end of one that is not the innermost. Line
breaks are passed over. -/
def nest? (opened : List String) (tag : String) : Option (List String) :=
  if tag = lineBreak then some opened
  else if tag.toList[1]? = some '/' then endOf? tag opened
  else some (tagName tag :: opened)

/-- The tags that HTML leaves open, the innermost first, if each end in it closes the innermost open
tag. -/
def unclosed? (html : String) : Option (List String) :=
  (tagTexts html).foldlM nest? []

/-- A text starts and ends outside of a tag, and takes some open tags to others. -/
def Leads (text : List Char) (opened opened' : List String) : Prop :=
  ∃ tags, HasTags text tags ∧ tags.foldlM nest? opened = some opened'

section

variable {name attributes : String} {first second text : List Char}
  {opened opened' opened'' : List String}

theorem Leads.append (h : Leads first opened opened') (h' : Leads second opened' opened'') :
    Leads (first ++ second) opened opened'' := by
  obtain ⟨tags, htags, hnest⟩ := h
  obtain ⟨tags', htags', hnest'⟩ := h'
  refine ⟨tags ++ tags', htags.append htags', ?_⟩
  rw [List.foldlM_append, hnest]
  exact hnest'

theorem Leads.unclosed? {html : String} (h : Leads html.toList [] opened) :
    unclosed? html = some opened := by
  obtain ⟨tags, htags, hnest⟩ := h
  rw [Html.unclosed?, htags.tagTexts]
  exact hnest

/-- A text in which no tag starts. -/
theorem leads_text (h : '<' ∉ text) (opened : List String) : Leads text opened opened :=
  ⟨[], hasTags_of_less_notMem h, rfl⟩

theorem toList_startTag (name attributes : String) : (startTag name attributes).toList =
    '<' :: (name.toList ++ if attributes = "" then [] else ' ' :: attributes.toList) ++ ['>'] := by
  unfold startTag
  split <;> simp

theorem toList_endTag (name : String) :
    (endTag name).toList = '<' :: ('/' :: name.toList) ++ ['>'] := by
  simp [endTag]

theorem tagName_startTag (h : NameText name.toList) (attributes : String) :
    tagName (startTag name attributes) = name := by
  have hname : ∀ c ∈ name.toList, (c != ' ' && c != '>') = true := fun c hc => by
    simp [(h c hc).2.1, (h c hc).2.2]
  have htake : ((startTag name attributes).toList.drop 1).takeWhile
      (fun c => c != ' ' && c != '>') = name.toList := by
    rw [toList_startTag, List.cons_append, List.drop_one, List.tail_cons, List.append_assoc,
      List.takeWhile_append_of_pos hname]
    split <;> simp
  unfold tagName
  rw [htake, String.ofList_toList]

/-- A start tag is open when it has been read. -/
theorem nest?_startTag (h : IsTagName name) (attributes : String) (opened : List String) :
    nest? opened (startTag name attributes) = some (name :: opened) := by
  have hname := tagName_startTag h.nameText attributes
  have hbreak : startTag name attributes ≠ lineBreak := by
    intro heq
    have hbr : tagName lineBreak = "br" := by decide
    exact h.noBreak (by rw [← hname, heq, hbr])
  have hslash : (startTag name attributes).toList[1]? ≠ some '/' := by
    rw [toList_startTag]
    rcases hchars : name.toList with _ | ⟨c, rest⟩
    · split <;> simp
    · have hhead := h.noSlash
      rw [hchars] at hhead
      simpa using hhead
  rw [nest?, if_neg hbreak, if_neg hslash, hname]

theorem nest?_endTag (name : String) (opened : List String) :
    nest? (name :: opened) (endTag name) = some opened := by
  have hslash : (endTag name).toList[1]? = some '/' := by
    rw [toList_endTag]
    rfl
  have hbreak : endTag name ≠ lineBreak := by
    intro heq
    rw [heq] at hslash
    revert hslash
    decide
  rw [nest?, if_neg hbreak, if_pos hslash]
  exact if_pos rfl

theorem IsTagName.greater_notMem (h : IsTagName name) : '>' ∉ name.toList :=
  fun hc => (h.nameText _ hc).2.1 rfl

theorem hasTags_endTag (h : '>' ∉ name.toList) : HasTags (endTag name).toList [endTag name] := by
  have htags := hasTags_tag (show '>' ∉ '/' :: name.toList by simpa using h)
  rwa [← toList_endTag, String.ofList_toList] at htags

/-- One tag takes some open tags to others. -/
theorem HasTags.leads {tag : String} (h : HasTags text [tag])
    (hnest : nest? opened tag = some opened') : Leads text opened opened' :=
  ⟨[tag], h, by simpa using hnest⟩

theorem leads_startTag (hname : IsTagName name) (h : Unmarked attributes.toList)
    (opened : List String) : Leads (startTag name attributes).toList opened (name :: opened) :=
  (hasTags_startTag hname.greater_notMem h).leads (nest?_startTag hname attributes opened)

theorem leads_endTag (hname : IsTagName name) (opened : List String) :
    Leads (endTag name).toList (name :: opened) opened :=
  (hasTags_endTag hname.greater_notMem).leads (nest?_endTag name opened)

theorem leads_lineBreak (opened : List String) : Leads lineBreak.toList opened opened :=
  (hasTags_startTag (by decide) ⟨by decide, by decide⟩).leads rfl

/-! ## Open tags below -/

theorem endOf?_below {tag : String} (h : endOf? tag opened = some opened') (outer : List String) :
    endOf? tag (opened ++ outer) = some (opened' ++ outer) := by
  rcases opened with _ | ⟨name, rest⟩
  · cases h
  · rw [endOf?] at h
    split at h
    · cases h
      rename_i htag
      exact if_pos htag
    · cases h

/-- Tags that are open around a text stay open. -/
theorem nest?_below {tag : String} (h : nest? opened tag = some opened') (outer : List String) :
    nest? (opened ++ outer) tag = some (opened' ++ outer) := by
  by_cases hbreak : tag = lineBreak
  · rw [nest?, if_pos hbreak] at h ⊢
    cases h
    rfl
  · by_cases hslash : tag.toList[1]? = some '/'
    · rw [nest?, if_neg hbreak, if_pos hslash] at h ⊢
      exact endOf?_below h outer
    · rw [nest?, if_neg hbreak, if_neg hslash] at h ⊢
      cases h
      rfl

theorem Leads.below (h : Leads text opened opened') (outer : List String) :
    Leads text (opened ++ outer) (opened' ++ outer) := by
  obtain ⟨tags, htags, hnest⟩ := h
  refine ⟨tags, htags, ?_⟩
  clear htags
  induction tags generalizing opened with
  | nil =>
    cases hnest
    rfl
  | cons tag rest ih =>
    rw [List.foldlM_cons] at hnest ⊢
    rcases hstep : nest? opened tag with _ | next
    · rw [hstep] at hnest
      cases hnest
    · rw [hstep] at hnest
      rw [nest?_below hstep outer]
      exact ih hnest

end

/-! ## Lines -/

/-- Lines, the last one first, each end outside of a tag, and take some open tags to others. -/
def LinesLead : List String → List String → List String → Prop
  | [], opened, opened' => opened = opened'
  | line :: earlier, opened, opened' =>
    ∃ mid, LinesLead earlier opened mid ∧ Leads line.toList mid opened'

/-- What has been written leaves those tags open that the writer holds open. -/
structure Writer.Sound (w : Writer) : Prop where
  named : ∀ name ∈ w.stack, IsTagName name
  lines : LinesLead w.lines [] w.stack

namespace Writer

section

variable {w other : Writer} {s name attributes : String} {lines opened opened' outer : List String}

/-- Lines that are read one below the other. -/
theorem leads_written (h : LinesLead lines opened opened') :
    Leads ("\n".intercalate lines.reverse).toList opened opened' := by
  induction lines generalizing opened' with
  | nil =>
    cases h
    exact leads_text (by decide) opened
  | cons line earlier ih =>
    obtain ⟨mid, hearlier, hline⟩ := h
    rw [List.reverse_cons, intercalate_append_line]
    split
    · rename_i hnone
      obtain rfl : earlier = [] := by simpa using hnone
      cases hearlier
      rwa [String.empty_append]
    · rw [String.toList_append, String.toList_append]
      have hbreak : Leads "\n".toList mid mid := leads_text (by decide) mid
      exact ((ih hearlier).append hbreak).append hline

theorem Sound.unclosed? (h : w.Sound) : unclosed? w.written = some w.stack :=
  (leads_written h.lines).unclosed?

theorem leads_indentation (w : Writer) (opened : List String) :
    Leads w.indentation.toList opened opened := by
  refine leads_text ?_ opened
  rw [indentation, String.toList_ofList]
  intro h
  cases List.eq_of_mem_replicate h

/-- A text takes the tags that are open before it to those after it. -/
theorem linesLead_text (h : LinesLead w.lines [] opened) (hs : Leads s.toList opened opened') :
    LinesLead (w.text s).lines [] opened' := by
  have hnew : Leads (w.indentation ++ s).toList opened opened' := by
    rw [String.toList_append]
    exact (w.leads_indentation opened).append hs
  unfold text
  split
  · rename_i line earlier _ hlines
    rw [hlines] at h
    obtain ⟨mid, hearlier, hline⟩ := h
    refine ⟨mid, hearlier, ?_⟩
    rw [String.toList_append]
    exact hline.append hs
  · exact ⟨opened, h, hnew⟩

/-! ## Steps -/

theorem sound_empty : Sound .empty :=
  ⟨by simp [empty], rfl⟩

theorem Sound.text (h : w.Sound) (hs : Leads s.toList w.stack w.stack) : (w.text s).Sound := by
  have hstack := stack_text w s
  exact ⟨hstack ▸ h.named, hstack ▸ linesLead_text h.lines hs⟩

theorem Sound.startLine (h : w.Sound) : w.startLine.Sound :=
  ⟨h.named, h.lines⟩

theorem Sound.newLine (h : w.Sound) : w.newLine.Sound :=
  (h.text (leads_lineBreak w.stack)).startLine

theorem Sound.openTag (h : w.Sound) (hname : IsTagName name) (ha : Unmarked attributes.toList) :
    (w.openTag name attributes).Sound := by
  have hstack := stack_openTag w name attributes
  refine ⟨?_, ?_⟩
  · rw [hstack, List.forall_mem_cons]
    exact ⟨hname, h.named⟩
  · rw [hstack]
    exact linesLead_text h.lines (leads_startTag hname ha w.stack)

theorem Sound.closeTag (h : w.Sound) : w.closeTag.Sound := by
  rcases hstack : w.stack with _ | ⟨name, outer⟩
  · rwa [closeTag_of_nil hstack]
  · have hnamed := h.named
    have hlines := h.lines
    rw [hstack] at hlines
    rw [hstack, List.forall_mem_cons] at hnamed
    have hclosed : w.closeTag.stack = outer := by rw [stack_closeTag, hstack, List.tail_cons]
    refine ⟨hclosed ▸ hnamed.2, ?_⟩
    rw [hclosed, closeTag_of_cons hstack]
    exact linesLead_text (w := { w with stack := w.stack.tail }) hlines (leads_endTag hnamed.1 outer)

theorem Sound.closeTags (h : w.Sound) (n : Nat) : (w.closeTags n).Sound := by
  induction n generalizing w with
  | zero => exact h
  | succ n ih => exact ih h.closeTag

theorem Sound.closeTo (h : w.Sound) (depth : Nat) : (w.closeTo depth).Sound :=
  h.closeTags _

/-! ## Other writers -/

theorem addLines_append (w : Writer) (first second : List String) :
    w.addLines (first ++ second) = (w.addLines first).addLines second :=
  List.foldl_append

theorem stack_addLines (w : Writer) (lines : List String) :
    (w.addLines lines).stack = w.stack := by
  induction lines generalizing w with
  | nil => rfl
  | cons line rest ih => exact (ih (w.startLine.text line)).trans (stack_text _ _)

/-- The tags of other lines come inside of those that are open. -/
theorem linesLead_addLines (h : LinesLead w.lines [] w.stack) (hlines : LinesLead lines [] opened) :
    LinesLead (w.addLines lines.reverse).lines [] (opened ++ w.stack) := by
  induction lines generalizing opened with
  | nil =>
    cases hlines
    exact h
  | cons line earlier ih =>
    obtain ⟨mid, hearlier, hline⟩ := hlines
    rw [List.reverse_cons, addLines_append]
    exact linesLead_text (w := (w.addLines earlier.reverse).startLine) (ih hearlier)
      (hline.below w.stack)

theorem stack_absorb (w other : Writer) : (w.absorb other).stack = w.stack :=
  stack_addLines w _

theorem Sound.absorb (h : w.Sound) (hother : other.Sound) : (w.absorb other).Sound := by
  have hclosed : other.closeAll.Sound := hother.closeTo 0
  have hlines := hclosed.lines
  rw [stack_closeAll] at hlines
  have hstack := stack_absorb w other
  exact ⟨hstack ▸ h.named, hstack ▸ linesLead_addLines h.lines hlines⟩

/-! ## Calls -/

theorem Sound.openDiv (h : w.Sound) {cssClass attributes : Option String}
    (ha : ∀ text ∈ attributes, Unmarked text.toList) : (w.openDiv cssClass attributes).Sound := by
  refine h.openTag (isTagName_of_mem (by decide)) ?_
  rcases cssClass with _ | cssClass <;> rcases attributes with _ | text
  · exact ⟨by decide, by decide⟩
  · simpa using ha text rfl
  · simpa using unmarked_attr "class" cssClass
  · have hblank : Unmarked " ".toList := ⟨by decide, by decide⟩
    simpa [String.intercalate_cons_cons] using
      unmarked_append (unmarked_append (unmarked_attr "class" cssClass) hblank) (ha text rfl)

theorem Sound.openSpan (h : w.Sound) (cssClass : String) : (w.openSpan cssClass).Sound :=
  h.openTag (isTagName_of_mem (by decide)) (unmarked_attr _ _)

theorem Sound.openForm (h : w.Sound) (name action : Option String) (method : FormMethod) :
    (w.openForm name action method).Sound :=
  h.openTag (isTagName_of_mem (by decide)) (unmarked_attrs _)

theorem Sound.calls {calls : List Call} (h : w.Sound)
    (hcalls : ∀ call ∈ calls, ∀ w : Writer, w.Sound → (w.call call).Sound) :
    (w.calls calls).Sound := by
  induction calls generalizing w with
  | nil => exact h
  | cons call rest ih =>
    rw [List.forall_mem_cons] at hcalls
    exact ih (hcalls.1 w h) hcalls.2

theorem Sound.call {call : Call} (h : w.Sound) (hfits : call.Fits IsTagName) :
    (w.call call).Sound := by
  induction hfits generalizing w with
  | text hs => exact h.text (leads_text hs w.stack)
  | newLine => exact h.newLine
  | startLine => exact h.startLine
  | openTag hname ha => exact h.openTag hname ha
  | openDiv ha => exact h.openDiv ha
  | openSpan cssClass => exact h.openSpan cssClass
  | openForm name action method => exact h.openForm name action method
  | closeTag => exact h.closeTag
  | closeTo depth => exact h.closeTo depth
  | absorb _ ih => exact h.absorb (sound_empty.calls fun call hcall w hw => ih call hcall hw)

theorem sound_calls {calls : List Call} (h : ∀ call ∈ calls, call.Fits IsTagName) :
    (Writer.empty.calls calls).Sound :=
  sound_empty.calls fun call hcall _ hw => hw.call (h call hcall)

end

end Writer

/-! ## What opened a tag -/

/-- The open tags after a call, each with the number of the call that opened it, the innermost
first. -/
def Call.opened (number : Nat) (tags : List (Nat × String)) : Call → List (Nat × String)
  | .openTag name _ => (number, name) :: tags
  | .openDiv _ _ => (number, "div") :: tags
  | .openSpan _ => (number, "span") :: tags
  | .openForm _ _ _ => (number, "form") :: tags
  | .closeTag => tags.tail
  | .closeTo depth => tags.drop (tags.length - depth)
  | _ => tags

/-- The open tags after calls that are numbered from some number on. -/
def openedFrom (number : Nat) (tags : List (Nat × String)) : List Call → List (Nat × String)
  | [] => tags
  | call :: rest => openedFrom (number + 1) (call.opened number tags) rest

/-- The tags that are open after calls, each with the number of the call that opened it. -/
def openedBy (calls : List Call) : List (Nat × String) :=
  openedFrom 0 [] calls

section

variable {number least : Nat} {tags newer base : List (Nat × String)} {calls : List Call}
  {w : Writer}

/-- A call opens a tag, or closes some, or none. -/
theorem opened_cases (call : Call) (number : Nat) (tags : List (Nat × String)) :
    (∃ name, call.opened number tags = (number, name) :: tags) ∨
      ∃ closed, call.opened number tags = tags.drop closed := by
  cases call with
  | openTag name attributes => exact .inl ⟨name, rfl⟩
  | openDiv cssClass attributes => exact .inl ⟨"div", rfl⟩
  | openSpan cssClass => exact .inl ⟨"span", rfl⟩
  | openForm name action method => exact .inl ⟨"form", rfl⟩
  | closeTag => exact .inr ⟨1, List.drop_one.symm⟩
  | closeTo depth => exact .inr ⟨tags.length - depth, rfl⟩
  | _ => exact .inr ⟨0, rfl⟩

theorem openedFrom_append (number : Nat) (tags : List (Nat × String)) (first second : List Call) :
    openedFrom number tags (first ++ second) =
      openedFrom (number + first.length) (openedFrom number tags first) second := by
  induction first generalizing number tags with
  | nil => rfl
  | cons call rest ih =>
    rw [List.cons_append, openedFrom, ih, openedFrom, List.length_cons, Nat.add_right_comm,
      Nat.add_assoc]

theorem stack_call (h : w.stack = tags.map Prod.snd) (call : Call) :
    (w.call call).stack = (call.opened number tags).map Prod.snd := by
  cases call with
  | text s => exact (Writer.stack_text w s).trans h
  | newLine => exact (Writer.stack_text w _).trans h
  | startLine => exact h
  | closeTag => exact (Writer.stack_closeTag w).trans (by rw [h]; exact List.map_tail.symm)
  | closeTo depth =>
    have hdepth : w.depth = tags.length := (congrArg List.length h).trans (List.length_map _)
    refine (Writer.stack_closeTags w _).trans ?_
    rw [h, hdepth]
    exact List.map_drop.symm
  | absorb calls => exact (Writer.stack_absorb w _).trans h
  | openTag name attributes => exact (Writer.stack_openTag w _ _).trans (congrArg _ h)
  | openDiv cssClass attributes => exact (Writer.stack_openTag w _ _).trans (congrArg _ h)
  | openSpan cssClass => exact (Writer.stack_openTag w _ _).trans (congrArg _ h)
  | openForm name action method => exact (Writer.stack_openTag w _ _).trans (congrArg _ h)

theorem stack_calls (h : w.stack = tags.map Prod.snd) (number : Nat) (calls : List Call) :
    (w.calls calls).stack = (openedFrom number tags calls).map Prod.snd := by
  induction calls generalizing w tags number with
  | nil => exact h
  | cons call rest ih => exact ih (stack_call h call) (number + 1)

/-- A call after which no less tags than those of before are open has closed none of them. -/
theorem opened_later (hnewer : ∀ tag ∈ newer, least ≤ tag.1) (hleast : least ≤ number) {call : Call}
    (h : base.length ≤ (call.opened number (newer ++ base)).length) :
    ∃ later, call.opened number (newer ++ base) = later ++ base ∧ ∀ tag ∈ later, least ≤ tag.1 := by
  rcases opened_cases call number (newer ++ base) with ⟨name, hopened⟩ | ⟨closed, hclosed⟩
  · exact ⟨(number, name) :: newer, hopened, List.forall_mem_cons.mpr ⟨hleast, hnewer⟩⟩
  · refine ⟨newer.drop closed, ?_, fun tag htag => hnewer tag (List.mem_of_mem_drop htag)⟩
    rw [hclosed, List.length_drop, List.length_append] at h
    rw [hclosed, List.drop_append]
    -- More tags than the newer ones are closed only where there are no others.
    rcases base with _ | ⟨first, below⟩
    · rw [List.drop_nil]
    · rw [List.length_cons] at h
      have hnone : closed - newer.length = 0 := by omega
      rw [hnone, List.drop_zero]

/-- Where no less than the tags of before stay open, these stay, below those of later calls. -/
theorem openedFrom_later (hnewer : ∀ tag ∈ newer, least ≤ tag.1) (hleast : least ≤ number)
    (h : ∀ first, first <+: calls →
      base.length ≤ (openedFrom number (newer ++ base) first).length) :
    ∃ later, openedFrom number (newer ++ base) calls = later ++ base ∧
      ∀ tag ∈ later, least ≤ tag.1 := by
  induction calls generalizing number newer with
  | nil => exact ⟨newer, rfl, hnewer⟩
  | cons call rest ih =>
    obtain ⟨newer', hopened, hnewer'⟩ :=
      opened_later hnewer hleast (h [call] (List.prefix_iff_eq_append.mpr rfl))
    rw [openedFrom, hopened]
    refine ih hnewer' (Nat.le_succ_of_le hleast) fun first hfirst => ?_
    have hdeep := h (call :: first) (List.cons_prefix_cons.mpr ⟨rfl, hfirst⟩)
    rwa [openedFrom, hopened] at hdeep

theorem openedFrom_lt (htags : ∀ tag ∈ tags, tag.1 < number) :
    ∀ tag ∈ openedFrom number tags calls, tag.1 < number + calls.length := by
  induction calls generalizing number tags with
  | nil => exact htags
  | cons call rest ih =>
    have hnext : ∀ tag ∈ call.opened number tags, tag.1 < number + 1 := by
      rcases opened_cases call number tags with ⟨name, hopened⟩ | ⟨closed, hclosed⟩
      · rw [hopened, List.forall_mem_cons]
        exact ⟨Nat.lt_succ_self number, fun tag htag => Nat.lt_succ_of_lt (htags tag htag)⟩
      · rw [hclosed]
        exact fun tag htag => Nat.lt_succ_of_lt (htags tag (List.mem_of_mem_drop htag))
    rw [openedFrom, List.length_cons, Nat.add_comm rest.length, ← Nat.add_assoc]
    exact ih hnext

theorem stack_openedBy (calls : List Call) :
    (Writer.empty.calls calls).stack = (openedBy calls).map Prod.snd :=
  stack_calls rfl 0 calls

/-- Tags are closed by their ends, the innermost first. -/
theorem hasTags_closeTags (h : w.Sound) {texts : List String}
    (htexts : HasTags w.written.toList texts) (n : Nat) :
    HasTags (w.closeTags n).written.toList (texts ++ (w.stack.take n).map endTag) := by
  induction n generalizing w texts with
  | zero =>
    rw [List.take_zero, List.map_nil, List.append_nil]
    exact htexts
  | succ n ih =>
    rcases hstack : w.stack with _ | ⟨name, outer⟩
    · have hclosed := ih h htexts
      rw [hstack, List.take_nil] at hclosed
      rw [Writer.closeTags, Writer.closeTag_of_nil hstack, List.take_nil]
      exact hclosed
    · have hclosed : w.closeTag.stack = outer := by
        rw [Writer.stack_closeTag, hstack, List.tail_cons]
      have hname : IsTagName name := h.named name (by rw [hstack]; exact List.mem_cons_self)
      obtain ⟨gap, hgap, hwritten⟩ :=
        ({ w with stack := w.stack.tail } : Writer).written_text (endTag name)
      have hnext : HasTags w.closeTag.written.toList (texts ++ [endTag name]) := by
        rw [Writer.closeTag_of_cons hstack, hwritten, ← List.append_nil texts]
        exact (htexts.append (hasTags_unmarked hgap)).append (hasTags_endTag hname.greater_notMem)
      have hrest := ih h.closeTag hnext
      rwa [hclosed, List.append_assoc, List.singleton_append, ← List.map_cons,
        ← List.take_succ_cons] at hrest

/-- Where no less than the tags of before stay open, closing down to these closes those of later
calls. -/
theorem closeTo_depth {before after : List Call}
    (hsound : (Writer.empty.calls (before ++ after)).Sound)
    (h : ∀ first, first <+: after →
      (Writer.empty.calls before).depth ≤ (Writer.empty.calls (before ++ first)).depth) :
    let w := Writer.empty.calls (before ++ after)
    let closed := w.closeTo (Writer.empty.calls before).depth
    closed.stack = (Writer.empty.calls before).stack ∧
      ∃ later, openedBy (before ++ after) = later ++ openedBy before ∧
        (∀ tag ∈ later, before.length ≤ tag.1) ∧
        tagTexts closed.written = tagTexts w.written ++ later.map fun tag => endTag tag.2 := by
  intro w closed
  have hdepth (calls : List Call) : (Writer.empty.calls calls).depth = (openedBy calls).length :=
    (congrArg List.length (stack_openedBy calls)).trans (List.length_map _)
  have hopened (first : List Call) : openedBy (before ++ first) =
      openedFrom before.length (openedBy before) first := by
    rw [openedBy, openedFrom_append, Nat.zero_add, openedBy]
  have hdeep : ∀ first, first <+: after → (openedBy before).length ≤
      (openedFrom before.length ([] ++ openedBy before) first).length := fun first hfirst => by
    rw [List.nil_append, ← hdepth, ← hopened, ← hdepth]
    exact h first hfirst
  obtain ⟨later, hlater, hnumbers⟩ := openedFrom_later (by simp) le_rfl hdeep
  rw [List.nil_append, ← hopened] at hlater
  have hstack : w.stack = later.map Prod.snd ++ (openedBy before).map Prod.snd := by
    rw [stack_openedBy, hlater, List.map_append]
  have hcount : w.depth - (Writer.empty.calls before).depth = (later.map Prod.snd).length := by
    rw [hdepth, hdepth, hlater, List.length_append, List.length_map, Nat.add_sub_cancel]
  refine ⟨?_, later, hlater, hnumbers, ?_⟩
  · change (w.closeTags (w.depth - _)).stack = _
    rw [hcount, Writer.stack_closeTags, hstack, List.drop_left, stack_openedBy]
  · obtain ⟨texts, htexts, -⟩ := Writer.leads_written hsound.lines
    have hclosed := hasTags_closeTags hsound htexts (later.map Prod.snd).length
    have hwritten : tagTexts w.written = texts := htexts.tagTexts
    rw [hstack, List.take_left, List.map_map] at hclosed
    change tagTexts (w.closeTags (w.depth - _)).written = _
    rw [hcount, hwritten]
    exact hclosed.tagTexts

/-- In what has been written after any calls, each end of a tag closes the innermost open one, and
those tags are left open that the writer holds open. A call that opens a tag answers how many tags
were open before it; if no less have been open since then, closing down to as many closes the tags
that this call and later ones have opened and that are still open, the innermost first, and no
others. When all tags are closed, none is left open. -/
theorem calls_leave_open_what_the_writer_holds_open {calls : List Call}
    (h : ∀ call ∈ calls, call.Fits IsTagName) :
    let w := Writer.empty.calls calls
    unclosed? w.written = some w.stack ∧
    w.stack = (openedBy calls).map Prod.snd ∧
    (∀ before after, calls = before ++ after →
      let depth := (Writer.empty.calls before).depth
      (∀ first, first <+: after → depth ≤ (Writer.empty.calls (before ++ first)).depth) →
      (w.closeTo depth).stack = (Writer.empty.calls before).stack ∧
      ∃ later, openedBy calls = later ++ openedBy before ∧
        (∀ tag ∈ later, before.length ≤ tag.1) ∧ (∀ tag ∈ openedBy before, tag.1 < before.length) ∧
        tagTexts (w.closeTo depth).written =
          tagTexts w.written ++ later.map fun tag => endTag tag.2) ∧
    w.closeAll.stack = [] ∧ unclosed? w.closeAll.written = some [] := by
  intro w
  have hsound : w.Sound := Writer.sound_calls h
  have hclosed := (hsound.closeTo 0).unclosed?
  have hall : w.closeAll.stack = [] := w.stack_closeAll
  refine ⟨hsound.unclosed?, stack_openedBy calls, ?_, hall, hclosed.trans (congrArg some hall)⟩
  rintro before after rfl depth hdeep
  obtain ⟨hstack, later, hopened, hlater, hwritten⟩ := closeTo_depth hsound hdeep
  have hbefore : ∀ tag ∈ openedBy before, tag.1 < before.length := fun tag htag => by
    have hlt := openedFrom_lt (by simp) tag htag
    rwa [Nat.zero_add] at hlt
  exact ⟨hstack, later, hopened, hlater, hbefore, hwritten⟩

end

/-- A word in a link, with a block of another writer after it. -/
def linkedWord : List Call :=
  [.openTag "a" "", .text "x", .absorb [.openDiv none none, .newLine]]

/-- Calls after a linked word that open two tags, both of which can be closed again. -/
theorem two_tags_are_closed_in_a_link :
    let after : List Call := [.openSpan "c", .openTag "b" "", .startLine]
    let w := Writer.empty.calls (linkedWord ++ after)
    (∀ call ∈ linkedWord ++ after, call.Fits IsTagName) ∧
    unclosed? w.written = some ["b", "span", "a"] ∧
    (w.closeTo 1).stack = ["a"] ∧
    ∃ later, openedBy (linkedWord ++ after) = later ++ [(0, "a")] ∧
      (∀ tag ∈ later, 3 ≤ tag.1) ∧
      tagTexts (w.closeTo 1).written = tagTexts w.written ++ later.map fun tag => endTag tag.2 := by
  intro after w
  have hfits : ∀ call ∈ linkedWord ++ after, call.Fits IsTagName := by
    have hempty : Unmarked "".toList := ⟨by decide, by decide⟩
    simp only [linkedWord, after, List.cons_append, List.nil_append, List.forall_mem_cons]
    refine ⟨.openTag (isTagName_of_mem (by decide)) hempty, .text (by decide), .absorb ?_,
      .openSpan "c", .openTag (isTagName_of_mem (by decide)) hempty, .startLine, by simp⟩
    simp only [List.forall_mem_cons]
    exact ⟨.openDiv (by simp), .newLine, by simp⟩
  obtain ⟨hunclosed, -, hclose, -⟩ := calls_leave_open_what_the_writer_holds_open hfits
  have hdeep : ∀ first, first <+: after →
      (Writer.empty.calls linkedWord).depth ≤ (Writer.empty.calls (linkedWord ++ first)).depth := by
    intro first hfirst
    simp only [after, List.prefix_cons_iff, List.prefix_nil] at hfirst
    rcases hfirst with rfl | ⟨_, rfl, rfl | ⟨_, rfl, rfl | ⟨_, rfl, rfl⟩⟩⟩ <;> decide
  obtain ⟨hstack, later, hlater, hnumbers, -, hwritten⟩ := hclose linkedWord after rfl hdeep
  exact ⟨hfits, hunclosed, hstack, later, hlater, hnumbers, hwritten⟩

/-- From the lines that calls with names of some kind have written, it can be told which tags are
open. -/
def Scannable (named : String → Prop) : Prop :=
  ∃ scan : List String → List String, ∀ calls : List Call,
    (∀ call ∈ calls, call.Fits named) →
      scan (Writer.empty.calls calls).body = (Writer.empty.calls calls).stack

theorem not_scannable {named : String → Prop} (calls calls' : List Call)
    (h : ∀ call ∈ calls, call.Fits named) (h' : ∀ call ∈ calls', call.Fits named)
    (hbody : (Writer.empty.calls calls).body = (Writer.empty.calls calls').body)
    (hstack : (Writer.empty.calls calls).stack ≠ (Writer.empty.calls calls').stack) :
    ¬ Scannable named := by
  rintro ⟨scan, hscan⟩
  exact hstack (by rw [← hscan calls h, ← hscan calls' h', hbody])

/-- It cannot be told with names that start with a slash, as the start of such a tag is the same as
the end of another one; and not with names that have blanks, as they are the same as names with
attributes. -/
theorem not_all_names_are_scannable :
    (¬ Scannable fun name => Unmarked name.toList ∧ name ≠ "br") ∧
    ¬ Scannable fun name =>
      Unmarked name.toList ∧ name ≠ "br" ∧ name.toList.head? ≠ some '/' := by
  have hempty : Unmarked "".toList := ⟨by decide, by decide⟩
  have ha : Unmarked "a".toList := ⟨by decide, by decide⟩
  have hslash : Unmarked "/a".toList := ⟨by decide, by decide⟩
  have hb : Unmarked "b".toList := ⟨by decide, by decide⟩
  have hblank : Unmarked "a b".toList := ⟨by decide, by decide⟩
  refine ⟨?_, ?_⟩
  · refine not_scannable [.openTag "a" "", .openTag "/a" ""]
      [.openTag "a" "", .closeTag] ?_ ?_ (by decide) (by decide)
    · simp only [List.forall_mem_cons]
      exact ⟨.openTag ⟨ha, by decide⟩ hempty, .openTag ⟨hslash, by decide⟩ hempty, by simp⟩
    · simp only [List.forall_mem_cons]
      exact ⟨.openTag ⟨ha, by decide⟩ hempty, .closeTag, by simp⟩
  · refine not_scannable [.openTag "a" "b"] [.openTag "a b" ""] ?_ ?_
      (by decide) (by decide)
    · simp only [List.forall_mem_cons]
      exact ⟨.openTag ⟨ha, by decide, by decide⟩ hb, by simp⟩
    · simp only [List.forall_mem_cons]
      exact ⟨.openTag ⟨hblank, by decide, by decide⟩ hempty, by simp⟩

end WikiHtml.Html
