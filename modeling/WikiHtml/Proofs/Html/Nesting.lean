-- The tags of a page. Each step of a rendering writes the same tags on documents that differ in their
-- words only, and leaves open what its writer holds open; so a finished page has all its tags
-- closed, each by its own end, and no text in it can change that.
import WikiHtml.Proofs.Document.Parts
import WikiHtml.Proofs.Element.Kinds
import WikiHtml.Proofs.Html.Reworded
import WikiHtml.Proofs.Html.Written

namespace WikiHtml

/-- HTML that is put in as it is. -/
def Leaf.isHtml : Leaf → Bool
  | .html _ => true
  | _ => false

/-- A tag that is put in as it is. -/
def Wrapper.isHtmlTag : Wrapper → Bool
  | .htmlTag _ _ => true
  | _ => false

/-- Nowhere in a document is HTML put in as it is. -/
def Document.WithoutHtml (d : Document) : Prop :=
  ∀ c, d.Part c → c.element.isLeaf Leaf.isHtml = false ∧ c.element.isWrap Wrapper.isHtmlTag = false

namespace Html

/-! ## Renderings -/

/-- Two renderings have written the same tags and go on alike. -/
structure Rendering.Alike (s s' : Rendering) : Prop where
  writer : s.writer.Alike s'.writer
  afterBlock : s'.afterBlock = s.afterBlock

/-- Two steps take alike renderings to alike renderings. -/
def SameSteps (step step' : Rendering → Rendering) : Prop :=
  ∀ s s', s.Alike s' → (step s).Alike (step' s')

section

variable {v : View} {f : String → String} {place : Place} {span : Option Span}
  {child : Option Document} {content content' first first' second second' : Rendering → Rendering}

theorem SameSteps.comp (h : SameSteps first first') (h' : SameSteps second second') :
    SameSteps (fun s => second (first s)) (fun s => second' (first' s)) :=
  fun s s' hs => h' _ _ (h s s' hs)

theorem sameSteps_id : SameSteps id id :=
  fun _ _ h => h

theorem sameSteps_write {g g' : Writer → Writer}
    (h : ∀ w w', Writer.Alike w w' → Writer.Alike (g w) (g' w')) :
    SameSteps (·.write g) (·.write g') :=
  fun _ _ hs => ⟨h _ _ hs.writer, hs.afterBlock⟩

theorem sameSteps_html {text text' : String} (h : SameTags text.toList text'.toList) :
    SameSteps (·.html text) (·.html text') :=
  sameSteps_write fun _ _ hw => hw.text h

theorem sameSteps_text (text text' : String) : SameSteps (·.text text) (·.text text') :=
  sameSteps_html (sameTags_unmarked (unmarked_escape text) (unmarked_escape text'))

theorem sameSteps_startLine : SameSteps Rendering.startLine Rendering.startLine :=
  sameSteps_write fun _ _ hw => hw.startLine

theorem SameSteps.enclosed {start start' : Writer → Writer}
    (hstart : ∀ w w', Writer.Alike w w' → Writer.Alike (start w) (start' w'))
    (h : SameSteps content content') :
    SameSteps (·.enclosed start content) (·.enclosed start' content') := by
  intro s s' hs
  have hcontent := h _ _ (sameSteps_write hstart s s' hs)
  refine ⟨?_, hcontent.afterBlock⟩
  change Writer.Alike ((content (s.write start)).writer.closeTo s.writer.depth)
    ((content' (s'.write start')).writer.closeTo s'.writer.depth)
  rw [hs.writer.depth]
  exact hcontent.writer.closeTo _

theorem SameSteps.tag {name attributes attributes' : String} (hname : name ∈ pairedTags)
    (ha : AttributeText attributes.toList) (ha' : AttributeText attributes'.toList)
    (h : SameSteps content content') :
    SameSteps (·.tag name attributes content) (·.tag name attributes' content') :=
  h.enclosed fun _ _ hw => hw.openTag hname ha ha'

theorem SameSteps.div (cssClass cssClass' : String) (h : SameSteps content content') :
    SameSteps (·.div cssClass content) (·.div cssClass' content') :=
  h.enclosed fun _ _ hw => hw.openDiv cssClass cssClass'

theorem sameSteps_verticalSpace :
    SameSteps Rendering.verticalSpace Rendering.verticalSpace :=
  (sameSteps_id.div _ _).comp sameSteps_startLine

theorem sameSteps_breakFor {e e' : Element Document} (h : Document.SameKind e e') :
    SameSteps (Rendering.breakFor e) (Rendering.breakFor e') := by
  intro s s' hs
  unfold Rendering.breakFor
  rw [h.inline]
  split
  · exact hs
  · exact sameSteps_startLine s s' hs

theorem sameSteps_enter {e e' : Element Document} (h : Document.SameKind e e') :
    SameSteps (Rendering.enter e) (Rendering.enter e') := by
  intro s s' hs
  unfold Rendering.enter
  rw [h.listItem]
  refine sameSteps_breakFor h _ _ ?_
  split
  · exact hs
  · exact sameSteps_write (fun _ _ hw => hw.finishLists) s s' hs

theorem sameSteps_leave {e e' : Element Document} (h : Document.SameKind e e') :
    SameSteps (Rendering.leave e) (Rendering.leave e') := by
  intro s s' hs
  have hbreak := sameSteps_breakFor h s s' hs
  unfold Rendering.leave
  dsimp only
  rw [h.anchor, h.spacedBlock]
  split
  · exact hbreak
  · exact ⟨hbreak.writer, rfl⟩

/-! ## Links to the editor -/

theorem attributeText_two (name value name' value' : String) :
    AttributeText (attr name value ++ " " ++ attr name' value').toList := by
  rw [String.toList_append, String.toList_append]
  exact ((attributeText_attr _ _).append attributeText_blank).append (attributeText_attr _ _)

theorem sameTags_editLink (settings : Settings) (path path' : String) (span : Span)
    (mark : EditMark) :
    SameTags (editLink settings path span mark).toList (editLink settings path' span mark).toList := by
  have himage := attributeText_attrs
    [("src", mark.image), ("title", settings.message mark.message), ("alt", "")]
  have hlink : ∀ path, AttributeText
      (attr "class" mark.cssClass ++ " " ++ urlAttr "href" (editUrl path span)).toList := fun path =>
    attributeText_two _ _ _ _
  unfold editLink
  rw [String.toList_append, String.toList_append, String.toList_append, String.toList_append]
  exact (sameTags_voidTag (by decide) himage himage).inTag (by decide) (hlink path) (hlink path')

theorem sameSteps_editMark (v : View) (place : Place) (span : Option Span) (mark : EditMark) :
    SameSteps (editMark v place span mark) (editMark v (place.reword f) span mark) := by
  unfold editMark View.editLink?
  rw [Place.join_context_reword]
  rcases v.editLinks with _ | _
  · exact sameSteps_id
  rcases place.context.join with _ | path
  · exact sameSteps_id
  rcases span with _ | span
  · exact sameSteps_id
  · exact sameSteps_html (sameTags_editLink v.settings path (f path) span mark)

/-! ## Elements that hold one -/

theorem SameSteps.orLabel {label label' : String} (h : SameSteps content content')
    (hl : Unmarked label.toList) (hl' : Unmarked label'.toList) :
    SameSteps (orLabel child content label)
      (orLabel (Document.rewordChild f child) content' label') := by
  intro s s' hs
  unfold Html.orLabel
  rw [Document.isSome_rewordChild]
  split
  · exact h s s' hs
  · exact sameSteps_html (sameTags_unmarked hl hl') s s' hs

theorem both_or_neither {α : Type} {a b : Option α} (h : b.isSome = a.isSome) :
    (a = none ∧ b = none) ∨ ∃ x y, a = some x ∧ b = some y := by
  cases a <;> cases b <;> simp at h ⊢

/-- A view whose messages have no marks. -/
def View.PlainMessages (v : View) : Prop :=
  ∀ m ∈ v.settings.messages, Unmarked m.2.toList

theorem unmarked_message (h : v.PlainMessages) {key : String} (hkey : Unmarked key.toList) :
    Unmarked (v.settings.message key).toList := by
  unfold Settings.message
  rcases hm : v.settings.messages.lookup key with _ | message
  · exact hkey
  · obtain ⟨before, after, hsplit, -⟩ := List.lookup_eq_some_iff.mp hm
    exact h (key, message) (by rw [hsplit]; simp)

/-- What a command stands for is the same on any page, but for where it leads. -/
theorem command?_cases (outermost outermost' : Option String)
    (h : outermost'.isSome = outermost.isSome) (name : String) :
    (command? outermost name = none ∧ command? outermost' name = none) ∨
      ∃ message url url', command? outermost name = some ⟨url, message⟩ ∧
        command? outermost' name = some ⟨url', message⟩ ∧ url'.isSome = url.isSome ∧
        Unmarked message.toList := by
  unfold command?
  split
  · exact .inr ⟨_, _, _, rfl, rfl, rfl, ⟨by decide, by decide⟩⟩
  · exact .inr ⟨_, _, _, rfl, rfl, by simp [h], ⟨by decide, by decide⟩⟩
  · exact .inr ⟨_, _, _, rfl, rfl, rfl, ⟨by decide, by decide⟩⟩
  · exact .inr ⟨_, _, _, rfl, rfl, rfl, ⟨by decide, by decide⟩⟩
  · exact .inr ⟨_, _, _, rfl, rfl, rfl, ⟨by decide, by decide⟩⟩
  · exact .inl ⟨rfl, rfl⟩

theorem SameSteps.commandLink (hv : v.PlainMessages) (h : SameSteps content content')
    (name : String) :
    SameSteps (commandLink v place child content name)
      (commandLink v (place.reword f) (Document.rewordChild f child) content' name) := by
  intro s s' hs
  have houtermost : (place.reword f).outermost.isSome = place.outermost.isSome :=
    Option.isSome_map
  unfold Html.commandLink
  rcases command?_cases place.outermost (place.reword f).outermost houtermost name with
    ⟨hnone, hnone'⟩ | ⟨message, url, url', hsome, hsome', hurl, hmessage⟩
  · have hlabel : Unmarked ("wiki:" ++ Text.escape name ++ "?").toList := by
      rw [String.toList_append, String.toList_append]
      exact unmarked_append (unmarked_append ⟨by decide, by decide⟩ (unmarked_escape name))
        ⟨by decide, by decide⟩
    rw [hnone, hnone']
    exact h.orLabel hlabel hlabel s s' hs
  · have hlabel := unmarked_message hv hmessage
    rw [hsome, hsome']
    rcases both_or_neither hurl with ⟨rfl, rfl⟩ | ⟨url, url', rfl, rfl⟩
    · exact h.orLabel hlabel hlabel s s' hs
    · exact (h.orLabel hlabel hlabel).tag (by decide) (attributeText_attr _ _)
        (attributeText_attr _ _) s s' hs

theorem SameSteps.fileLink (h : SameSteps content content') (path path' : String) :
    SameSteps (fileLink place child content path)
      (fileLink (place.reword f) (Document.rewordChild f child) content' path') := by
  intro s s' hs
  unfold Html.fileLink
  rcases both_or_neither (Place.isSome_absolutePath_reword (f := f) place path path') with
    ⟨hnone, hnone'⟩ | ⟨target, target', hsome, hsome'⟩
  · rw [hnone, hnone']
    exact hs
  · rw [hsome, hsome']
    exact (h.orLabel (unmarked_escape path) (unmarked_escape path')).tag (by decide)
      (attributeText_two _ _ _ _) (attributeText_two _ _ _ _) s s' hs

theorem attributeText_headingAttr (child : Option Document) :
    AttributeText (headingAttr child).toList := by
  unfold headingAttr
  dsimp only
  split
  · exact attributeText_empty
  · exact attributeText_attr _ _

theorem attributeText_target (target : Target) (anchor : Option String) :
    AttributeText (target.attributes anchor).toList := by
  unfold Target.attributes
  dsimp only
  split
  · exact attributeText_two _ _ _ _
  · exact attributeText_attr _ _

theorem headingTag_mem (level : Nat) : headingTag level ∈ pairedTags := by
  unfold headingTag
  split <;> decide

/-- An element that may hold one, unless it is a tag that is put in as it is. -/
theorem SameSteps.wrapped (hv : v.PlainMessages) (h : SameSteps content content') {w : Wrapper}
    (hw : w.isHtmlTag = false) :
    SameSteps (wrapped v place span child content · w)
      (wrapped v (place.reword f) span (Document.rewordChild f child) content' · (w.reword f)) := by
  intro s s' hs
  have hclass : ∀ value, AttributeText (attr "class" value).toList := attributeText_attr _
  cases w with
  | heading level =>
    simp only [Html.wrapped, Wrapper.reword, section?_reword]
    exact ((sameSteps_editMark v place _ sectionMark).comp h).tag (headingTag_mem level)
      (attributeText_headingAttr _) (attributeText_headingAttr _) s s' hs
  | paragraph centered indention spacing =>
    simp only [Html.wrapped, Wrapper.reword]
    rw [hs.afterBlock]
    split
    · exact (sameSteps_verticalSpace.comp (h.div _ _)) s s' hs
    · exact h.div _ _ s s' hs
  | listItem level isOrdered =>
    exact ((sameSteps_write fun _ _ hw => hw.nestLists level (.ofItem isOrdered)).comp
      (h.tag (by decide) attributeText_empty attributeText_empty)) s s' hs
  | bold => exact h.tag (by decide) attributeText_empty attributeText_empty s s' hs
  | italic => exact h.tag (by decide) attributeText_empty attributeText_empty s s' hs
  | underlined => exact h.tag (by decide) attributeText_empty attributeText_empty s s' hs
  | strikethrough => exact h.tag (by decide) attributeText_empty attributeText_empty s s' hs
  | monospace => exact h.tag (by decide) attributeText_empty attributeText_empty s s' hs
  | small => exact h.tag (by decide) (hclass _) (hclass _) s s' hs
  | color name =>
    exact h.tag (by decide) (attributeText_attr _ _) (attributeText_attr _ _) s s' hs
  | style classes => exact h.tag (by decide) (hclass _) (hclass _) s s' hs
  | htmlTag name attributes => cases hw
  | linkPage path anchor =>
    exact (h.orLabel (unmarked_escape _) (unmarked_escape _)).tag (by decide)
      (attributeText_target _ _) (attributeText_target _ _) s s' hs
  | linkWiki command => exact h.commandLink hv command s s' hs
  | linkLocalFile path => exact h.fileLink path (f path) s s' hs
  | linkExternal url =>
    exact (h.orLabel (unmarked_escape _) (unmarked_escape _)).tag (by decide)
      (attributeText_attrs _) (attributeText_attrs _) s s' hs
  | page path => exact h s s' hs
  | xmlTag space name options => exact h s s' hs

/-! ## Elements that hold none -/

theorem sameSteps_task (state : TaskState) (schedule description : Option String) :
    SameSteps (task state schedule description)
      (task state (schedule.map f) (description.map f)) := by
  have hschedule : ∀ schedule : String, SameSteps
      (·.tag "span" (attr "class" "schedule") (·.text schedule))
      (·.tag "span" (attr "class" "schedule") (·.text (f schedule))) := fun schedule =>
    (sameSteps_text _ _).tag (by decide) (attributeText_attr _ _) (attributeText_attr _ _)
  unfold task
  refine SameSteps.div _ _ ?_
  rcases schedule with _ | schedule <;> rcases description with _ | description
  · exact sameSteps_id
  · exact sameSteps_text _ _
  · exact hschedule schedule
  · exact (hschedule schedule).comp (sameSteps_text _ _)

theorem sameTags_plainText (text : String) :
    SameTags (plainText text).toList (plainText text).toList := by
  unfold plainText
  rw [String.toList_ofList]
  refine sameTags_flatMap fun c _ => ?_
  unfold plainChar
  split
  · exact sameTags_lineBreakHtml
  · have hchar : Unmarked (Text.escapeChar c) :=
      unmarked_of_isMark fun d hd => Text.isMark_of_mem_escapeChar hd
    exact sameTags_unmarked hchar hchar

theorem isSome_imageSource?_reword (place : Place) (url : String) :
    (imageSource? (place.reword f) url).isSome = (imageSource? place url).isSome := by
  unfold imageSource?
  split
  · rfl
  · rw [Option.isSome_map, Option.isSome_map, Place.isSome_absolutePath_reword]

/-- An element that holds none, unless it is HTML that is put in as it is. -/
theorem sameSteps_leaf {l : Leaf} (hl : l.isHtml = false) :
    SameSteps (leaf v place span · l) (leaf v (place.reword f) span · (l.reword f)) := by
  intro s s' hs
  cases l with
  | text text => exact sameSteps_text _ _ s s' hs
  | lineBreak => exact sameSteps_write (fun _ _ hw => hw.newLine) s s' hs
  | nowiki text => exact sameSteps_html (sameTags_plainText text) s s' hs
  | html text => cases hl
  | anchor name =>
    exact sameSteps_id.tag (by decide) (attributeText_attr _ _) (attributeText_attr _ _) s s' hs
  | image url options =>
    simp only [leaf, Leaf.reword]
    rcases both_or_neither (isSome_imageSource?_reword (f := f) place url) with
      ⟨hnone, hnone'⟩ | ⟨src, src', hsome, hsome'⟩
    · rw [hnone, hnone']
      exact hs
    · rw [hsome, hsome']
      exact sameSteps_html (sameTags_voidTag (by decide) (attributeText_attrs _)
        (attributeText_attrs _)) s s' hs
  | searchInput =>
    have hfield := attributeText_attrs [("type", "text"), ("name", "text"),
      ("placeholder", v.settings.message "ViewPageHandler.html.search")]
    exact (sameSteps_html (sameTags_voidTag (by decide) hfield hfield)).enclosed
      (fun _ _ hw => hw.openForm _ _ _) s s' hs
  | separator =>
    exact sameSteps_html (sameTags_voidTag (by decide) attributeText_empty attributeText_empty)
      s s' hs
  | verticalSpace => exact sameSteps_verticalSpace s s' hs
  | task state schedule description => exact sameSteps_task state schedule description s s' hs
  | code language text =>
    exact ((sameSteps_editMark v place span codeMark).comp
      (sameSteps_html (sameTags_code language text))).div _ _ s s' hs
  | _ => exact ⟨hs.writer, hs.afterBlock⟩

/-! ## Tables -/

theorem attributeText_paramsAttr (params : Option String) :
    AttributeText (paramsAttr params).toList := by
  rcases params with _ | params
  · exact attributeText_empty
  · exact attributeText_attr _ _

theorem SameSteps.table (params params' : Option String) (h : SameSteps content content') :
    SameSteps (table v place span params content) (table v (place.reword f) span params' content') :=
  ((((sameSteps_editMark v place span tableMark).comp
    (sameSteps_write fun _ _ hw => hw.openTag (by decide) (attributeText_paramsAttr params)
      (attributeText_paramsAttr params'))).comp h).comp sameSteps_startLine).div _ _

theorem SameSteps.row (params params' : Option String) (h : SameSteps content content') :
    SameSteps (row params content) (row params' content') :=
  sameSteps_startLine.comp ((h.comp sameSteps_startLine).tag (by decide)
    (attributeText_paramsAttr params) (attributeText_paramsAttr params'))

theorem SameSteps.cell (header : Bool) (params params' : Option String)
    (h : SameSteps content content') :
    SameSteps (cell v place header params child content)
      (cell v (place.reword f) header params' (Document.rewordChild f child) content') := by
  have htag : (if header then "th" else "td") ∈ pairedTags := by
    cases header <;> decide
  unfold Html.cell
  rw [Document.bind_span_rewordChild]
  refine sameSteps_startLine.comp (SameSteps.tag htag (attributeText_paramsAttr params)
    (attributeText_paramsAttr params') fun s s' hs => ?_)
  dsimp only
  split
  · have hdiv := sameSteps_write (fun _ _ hw => hw.openDiv "tablecell" "tablecell") s s' hs
    have hmark := sameSteps_editMark (f := f) v place (child.bind Document.span) cellMark _ _ hdiv
    exact h _ _ ⟨hmark.writer, rfl⟩
  · exact h _ _ ⟨hs.writer, rfl⟩

end

/-! ## Documents -/

section

variable {v : View} {f : String → String}

/-- A document is written with the same tags whatever its words are, wherever it stands. -/
def SameDrawn (v : View) (f : String → String) (d : Document) : Prop :=
  ∀ place, SameSteps (draw v place · d) (draw v (place.reword f) · (d.reword f))

theorem sameSteps_members {members : List Document} (h : ∀ d ∈ members, SameDrawn v f d)
    (place : Place) (span : Option Span) :
    SameSteps (drawMembers v place span · members)
      (drawMembers v (place.reword f) span · (Document.rewordMembers f members)) := by
  intro s s' hs
  induction members generalizing s s' with
  | nil => simpa only [Document.rewordMembers, drawMembers] using hs
  | cons d rest ih =>
    have hrest := ih fun c hc => h c (List.mem_cons_of_mem d hc)
    simp only [Document.rewordMembers, drawMembers]
    exact hrest _ _ (h d List.mem_cons_self _ s s' hs)

theorem sameSteps_child {child : Option Document} (h : ∀ d ∈ child.toList, SameDrawn v f d)
    (place : Place) :
    SameSteps (drawChild v place · child)
      (drawChild v (place.reword f) · (Document.rewordChild f child)) := by
  intro s s' hs
  cases child with
  | none => simpa only [Document.rewordChild, drawChild] using hs
  | some d =>
    simp only [Document.rewordChild, drawChild]
    exact h d (by simp) place s s' hs

theorem sameSteps_cells {cells : List (Cell Document)}
    (h : ∀ d ∈ Element.rowContents cells, SameDrawn v f d) (place : Place) :
    SameSteps (drawCells v place · cells)
      (drawCells v (place.reword f) · (Document.rewordCells f cells)) := by
  intro s s' hs
  induction cells generalizing s s' with
  | nil => simpa only [Document.rewordCells, drawCells] using hs
  | cons cell rest ih =>
    obtain ⟨header, params, content⟩ := cell
    rw [Element.rowContents_cons, List.forall_mem_append] at h
    obtain ⟨hcontent, hrest⟩ := h
    simp only [Document.rewordCells, drawCells]
    exact ih hrest _ _ ((sameSteps_child hcontent place).cell header params _ s s' hs)

theorem sameSteps_rows {rows : List (Row Document)}
    (h : ∀ d ∈ Element.contents rows, SameDrawn v f d) (place : Place) :
    SameSteps (drawRows v place · rows)
      (drawRows v (place.reword f) · (Document.rewordRows f rows)) := by
  intro s s' hs
  induction rows generalizing s s' with
  | nil => simpa only [Document.rewordRows, drawRows] using hs
  | cons row rest ih =>
    obtain ⟨params, cells⟩ := row
    rw [Element.contents_cons] at h
    have hcells := sameSteps_cells (fun d hd => h d (List.mem_append_left _ hd)) place
    simp only [Document.rewordRows, drawRows]
    exact ih (fun d hd => h d (List.mem_append_right _ hd)) _ _ (hcells.row params _ s s' hs)

/-- A document without HTML of its own writes the same tags whatever its words are. -/
theorem sameDrawn_of_withoutHtml (hv : v.PlainMessages) {d : Document} (h : d.WithoutHtml) :
    SameDrawn v f d := by
  induction d using Document.induct with
  | node e span ih =>
    have hheld : ∀ d ∈ e.children, SameDrawn v f d := fun d hd =>
      ih d hd fun c hc => h c (.head hd hc)
    obtain ⟨hleaf, hwrap⟩ := h _ .refl
    intro place s s' hs
    have hkind := Document.sameKind_reword (f := f) (.node e span)
    have hwithin := Place.within_reword (f := f) place (.node e span)
    have hframe : ∀ step step', SameSteps step step' →
        (Rendering.leave e (step (Rendering.enter e s))).Alike
          (Rendering.leave (Document.reword f (.node e span)).element
            (step' (Rendering.enter (Document.reword f (.node e span)).element s'))) :=
      fun step step' hstep =>
        ((sameSteps_enter hkind).comp hstep).comp (sameSteps_leave hkind) s s' hs
    cases e with
    | list members =>
      simp only [Document.reword, draw, Document.element] at hwithin hframe ⊢
      rw [hwithin]
      exact hframe _ _ (sameSteps_members hheld _ _)
    | wrap w child =>
      simp only [Document.reword, draw, Document.element] at hwithin hframe ⊢
      rw [hwithin]
      exact hframe _ _ ((sameSteps_child hheld _).wrapped hv hwrap)
    | table params rows =>
      simp only [Document.reword, draw, Document.element] at hwithin hframe ⊢
      rw [hwithin]
      exact hframe _ _ ((sameSteps_rows hheld _).table params _)
    | leaf l =>
      simp only [Document.reword, draw, Document.element] at hwithin hframe ⊢
      exact hframe _ _ (sameSteps_leaf hleaf)

/-- The tags of a page, and the same tags of the page with other words. -/
theorem readTags?_page (hv : v.PlainMessages) {d : Document} (h : d.WithoutHtml)
    (f : String → String) :
    ∃ tags, readTags? (page v d).written = some tags ∧
      readTags? (page v (d.reword f)).written = some tags := by
  have hstart : Rendering.Alike .empty .empty := ⟨Writer.alike_empty, rfl⟩
  have hdrawn := sameDrawn_of_withoutHtml (f := f) hv h (Place.top d) _ _ hstart
  rw [← Place.top_reword] at hdrawn
  have hclosed : (page v d).Alike (page v (d.reword f)) := hdrawn.writer.closeTo 0
  obtain ⟨tags, hreads, hreads'⟩ := hclosed.reads
  have hstack : (page v d).stack = [] := Writer.stack_closeAll _
  rw [hstack] at hreads hreads'
  unfold Reads at hreads hreads'
  refine ⟨tags.reverse, ?_, ?_⟩
  · rw [readTags?, hreads]
  · rw [readTags?, hreads']

/-- The body of a page without HTML of its own: every `<` and `>` belongs to a tag, each tag is closed
by its own end, the last one first, and all are closed. The tags are the same whatever the texts,
paths, URLs, options, classes and colours of the page are. -/
theorem page_tags_are_nested_whatever_it_says {d : Document} (hv : v.PlainMessages)
    (h : d.WithoutHtml) :
    ∃ tags, readTags? ("\n".intercalate (page v d).body) = some tags ∧
      ∀ f, readTags? ("\n".intercalate (page v (d.reword f)).body) = some tags := by
  obtain ⟨tags, htags, -⟩ := readTags?_page hv h id
  refine ⟨tags, htags, fun f => ?_⟩
  obtain ⟨tags', htags', hreworded⟩ := readTags?_page hv h f
  rw [htags, Option.some.injEq] at htags'
  rw [htags']
  exact hreworded

end

/-! ## A word in bold -/

/-- A paragraph with a word in bold. -/
def boldWord (word : String) : Document :=
  .node (.wrap (.paragraph false 0 false)
    (some (.node (.wrap .bold (some (.node (.leaf (.text word)) none))) none))) none

/-- A word in bold that looks like tags, and any other word in its place. -/
theorem a_bold_word_is_written_with_four_tags :
    View.PlainMessages ⟨.empty, .standard, true⟩ ∧ (boldWord "</b><i>").WithoutHtml ∧
      ∀ f, readTags? ("\n".intercalate
        (page ⟨.empty, .standard, true⟩ ((boldWord "</b><i>").reword f)).body) =
          some ["div", "b", "/b", "/div"] := by
  have hmessages : View.PlainMessages ⟨.empty, .standard, true⟩ := by
    intro m hm
    cases hm
  have hword : (Document.node (.leaf (.text "</b><i>")) none).WithoutHtml :=
    Document.forall_part ⟨rfl, rfl⟩ fun x hx => by cases hx
  have hbold : (Document.node (.wrap .bold (some (.node (.leaf (.text "</b><i>")) none)))
      none).WithoutHtml :=
    Document.forall_part ⟨rfl, rfl⟩ fun x hx => List.mem_singleton.mp hx ▸ hword
  have hparagraph : (boldWord "</b><i>").WithoutHtml :=
    Document.forall_part ⟨rfl, rfl⟩ fun x hx => List.mem_singleton.mp hx ▸ hbold
  refine ⟨hmessages, hparagraph, ?_⟩
  obtain ⟨tags, hread, hreworded⟩ := page_tags_are_nested_whatever_it_says hmessages hparagraph
  have htags : some ["div", "b", "/b", "/div"] = some tags := hread ▸ rfl
  rw [htags]
  exact hreworded

end Html

end WikiHtml
