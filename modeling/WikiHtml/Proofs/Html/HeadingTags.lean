-- The tags of headings. Whatever else a page holds, and wherever its headings stand, each of them is
-- written in a tag of its own, whose attribute is made from the text of the heading.
import WikiHtml.Proofs.Html.Drawn

namespace WikiHtml

namespace Html

/-- The start of the tag of a heading. -/
def headingStart? : Element Document → Option (Act String)
  | .wrap (.heading level) child => some (.openTag (headingTag level) (headingAttr child))
  | _ => none

/-! ## Steps -/

/-- A step of a rendering performs acts on the writer, the given ones among them and in their
order. -/
def Performs (starts : List (Act String)) (step : Rendering → Rendering) : Prop :=
  ∀ s, ∃ acts, starts.Sublist acts ∧ (step s).writer = s.writer.perform acts

section

variable {starts starts' : List (Act String)} {first second content : Rendering → Rendering}

theorem Performs.comp (h : Performs starts first) (h' : Performs starts' second) :
    Performs (starts ++ starts') fun s => second (first s) := by
  intro s
  obtain ⟨acts, hacts, hs⟩ := h s
  obtain ⟨acts', hacts', hs'⟩ := h' (first s)
  exact ⟨acts ++ acts', hacts.append hacts', by rw [hs', hs, Writer.perform_append]⟩

/-- A step of which nothing is asked, before another one. -/
theorem Performs.after (h : Performs starts second) (h' : Performs [] first) :
    Performs starts fun s => second (first s) :=
  h'.comp h

/-- A step of which nothing is asked, after another one. -/
theorem Performs.before (h : Performs starts first) (h' : Performs [] second) :
    Performs starts fun s => second (first s) := by
  have hboth := h.comp h'
  rwa [List.append_nil] at hboth

/-- What goes by a script performs its acts. -/
theorem Scripted.performsSome {bare : List Piece} {step : Settings → Rendering → Rendering}
    (h : Scripted (fun _ => True) bare step) (settings : Settings) :
    Performs [] (step settings) := by
  intro s
  obtain ⟨acts, hacts⟩ := h.performs settings s.writer.stack s.afterBlock
  exact ⟨acts, List.nil_sublist acts, hacts s rfl rfl⟩

theorem performs_id : Performs [] fun s => s :=
  blind_id.scripted.performsSome .standard

theorem performs_html (text : String) : Performs [] (·.html text) :=
  fun _ => ⟨[.text text], List.nil_sublist _, rfl⟩

theorem performs_startLine : Performs [] (·.startLine) :=
  fun _ => ⟨[.startLine], List.nil_sublist _, rfl⟩

theorem performs_enter (e : Element Document) : Performs [] (Rendering.enter e) :=
  (scripted_enter e).performsSome .standard

theorem performs_leave (e : Element Document) : Performs [] (Rendering.leave e) :=
  (blind_leave e).scripted.performsSome .standard

theorem performs_nestLists (level : Nat) (kind : ListKind) :
    Performs [] (·.write (·.nestLists level kind)) :=
  (scripted_nestLists level kind).performsSome .standard

theorem performs_editMark (v : View) (place : Place) (span : Option Span) (mark : EditMark) :
    Performs [] (editMark v place span mark) :=
  (blind_editMark v mark fun _ _ => trivial).scripted.performsSome v.settings

theorem performs_leaf (v : View) (place : Place) (span : Option Span) (l : Leaf) :
    Performs [] (leaf v place span · l) := by
  have hleaf := (blind_leaf v place span l fun _ _ => trivial).scripted.performsSome v.settings
  have hsame : v.withSettings v.settings = v := rfl
  rwa [hsame] at hleaf

theorem performs_verticalSpace : Performs [] (·.verticalSpace) :=
  blind_verticalSpace.scripted.performsSome .standard

theorem performs_openTag (name attributes : String) :
    Performs [.openTag name attributes] (·.write (·.openTag name attributes)) :=
  fun _ => ⟨[.openTag name attributes], List.Sublist.refl _, rfl⟩

theorem Performs.weaken (h : Performs starts content) (hs : starts'.Sublist starts) :
    Performs starts' content := by
  intro s
  obtain ⟨acts, hacts, hw⟩ := h s
  exact ⟨acts, hs.trans hacts, hw⟩

/-- Content in a tag comes after the start of the tag. -/
theorem Performs.opened (h : Performs starts content) (name attributes : String) :
    Performs (.openTag name attributes :: starts) (·.tag name attributes content) := by
  intro s
  obtain ⟨acts, hacts, hs⟩ := ((performs_openTag name attributes).comp h) s
  let open' := (content (s.write (·.openTag name attributes))).writer.depth - s.writer.depth
  refine ⟨acts ++ List.replicate open' .closeTag, hacts.trans (List.sublist_append_left _ _), ?_⟩
  rw [Writer.perform_append, ← hs, Writer.perform_closeTags]
  rfl

theorem Performs.tag (h : Performs starts content) (name attributes : String) :
    Performs starts (·.tag name attributes content) :=
  (h.opened name attributes).weaken (List.sublist_cons_self _ _)

theorem Performs.div (h : Performs starts content) (cssClass : String) :
    Performs starts (·.div cssClass content) :=
  h.tag "div" _

theorem Performs.orLabel (h : Performs starts content) {child : Option Document}
    (hnone : child = none → starts = []) (label : String) :
    Performs starts (orLabel child content label) := by
  unfold Html.orLabel
  rcases child with _ | child
  · obtain rfl := hnone rfl
    exact performs_html label
  · exact h

end

/-! ## Elements -/

section

variable {v : View} {place : Place} {span : Option Span} {child : Option Document}
  {starts : List (Act String)} {content : Rendering → Rendering}

theorem Performs.commandLink (h : Performs starts content) (hnone : child = none → starts = [])
    (name : String) : Performs starts (commandLink v place child content name) := by
  unfold Html.commandLink
  split
  · exact h.orLabel hnone _
  · dsimp only
    split
    · exact (h.orLabel hnone _).tag _ _
    · exact h.orLabel hnone _

/-- In a page a link to a file shows what it holds. -/
theorem Performs.fileLink (h : Performs starts content) (hnone : child = none → starts = [])
    (hpage : place.context.isSome) (path : String) :
    Performs starts (fileLink place child content path) := by
  obtain ⟨page, hpage⟩ := Option.isSome_iff_exists.mp hpage
  unfold Html.fileLink Place.absolutePath Document.absolutePath
  rw [hpage]
  exact (h.orLabel hnone _).tag _ _

/-- An element that may hold one performs what it holds, and a heading opens its tag before. -/
theorem Performs.wrapped (h : Performs starts content) (hnone : child = none → starts = [])
    (hpage : place.context.isSome) (w : Wrapper) :
    Performs ((headingStart? (.wrap w child)).toList ++ starts)
      fun s => wrapped v place span child content s w := by
  cases w with
  | page path => exact h
  | xmlTag space name options => exact h
  | heading level =>
    exact (h.after (performs_editMark v place (section? place level span) sectionMark)).opened
      (headingTag level) (headingAttr child)
  | paragraph centered indention spacing =>
    have hspace : Performs [] fun s =>
        if spacing && s.afterBlock then s.verticalSpace else s := by
      intro s
      dsimp only
      by_cases hs : spacing && s.afterBlock
      · rw [if_pos hs]
        exact performs_verticalSpace s
      · rw [if_neg hs]
        exact performs_id s
    exact (h.div (paragraphClass centered indention)).after hspace
  | listItem level isOrdered =>
    exact (h.tag "li" "").after (performs_nestLists level (.ofItem isOrdered))
  | linkPage path anchor => exact (h.orLabel hnone _).tag _ _
  | linkWiki name => exact h.commandLink hnone name
  | linkLocalFile path => exact h.fileLink hnone hpage path
  | linkExternal url => exact (h.orLabel hnone _).tag _ _
  | _ => exact h.tag _ _

theorem Performs.table (h : Performs starts content) (params : Option String) :
    Performs starts (table v place span params content) :=
  (((h.after ((performs_openTag "table" (paramsAttr params)).weaken (List.nil_sublist _))).after
    (performs_editMark v place span tableMark)).before performs_startLine).div "table"

theorem Performs.row (h : Performs starts content) (params : Option String) :
    Performs starts (row params content) :=
  ((h.before performs_startLine).tag "tr" (paramsAttr params)).after performs_startLine

theorem Performs.cell (h : Performs starts content) (header : Bool) (params : Option String) :
    Performs starts (cell v place header params child content) := by
  have hstart : Performs [] fun s =>
      let s := if v.editLinks && (child.bind Document.span).isSome then
          editMark v place (child.bind Document.span) cellMark
            (s.write (·.openDiv (some "tablecell") none))
        else s
      { s with afterBlock := false } :=
    (scripted_cellStart v place child fun _ _ => trivial).performsSome
      v.settings
  exact ((h.after hstart).tag _ (paramsAttr params)).after performs_startLine

end

/-! ## Documents -/

/-- In a page a document is drawn with the starts of its headings among the acts. -/
def Headed (v : View) (d : Document) : Prop :=
  ∀ place : Place, place.context.isSome → Performs (d.all headingStart?) (draw v place · d)

section

variable {v : View} {place : Place}

theorem performs_members {members : List Document} (h : ∀ d ∈ members, Headed v d)
    (hpage : place.context.isSome) (span : Option Span) :
    Performs (members.flatMap (Document.all headingStart?))
      (drawMembers v place span · members) := by
  induction members with
  | nil =>
    simp only [drawMembers]
    exact performs_id
  | cons d rest ih =>
    simp only [drawMembers]
    exact (h d List.mem_cons_self (place.member rest span) hpage).comp
      (ih fun c hc => h c (List.mem_cons_of_mem d hc))

theorem performs_child {child : Option Document} (h : ∀ d ∈ child.toList, Headed v d)
    (hpage : place.context.isSome) :
    Performs (child.toList.flatMap (Document.all headingStart?)) (drawChild v place · child) := by
  cases child with
  | none =>
    simp only [drawChild]
    exact performs_id
  | some d =>
    simp only [drawChild, Option.toList_some, List.flatMap_singleton]
    exact h d (by simp) place hpage

theorem performs_cells {cells : List (Cell Document)}
    (h : ∀ d ∈ Element.rowContents cells, Headed v d) (hpage : place.context.isSome) :
    Performs ((Element.rowContents cells).flatMap (Document.all headingStart?))
      (drawCells v place · cells) := by
  induction cells with
  | nil =>
    simp only [drawCells]
    exact performs_id
  | cons cell rest ih =>
    obtain ⟨header, params, content⟩ := cell
    rw [Element.rowContents_cons, List.forall_mem_append] at h
    simp only [drawCells, Element.rowContents_cons, List.flatMap_append]
    exact ((performs_child h.1 hpage).cell header params).comp (ih h.2)

theorem performs_rows {rows : List (Row Document)} (h : ∀ d ∈ Element.contents rows, Headed v d)
    (hpage : place.context.isSome) :
    Performs ((Element.contents rows).flatMap (Document.all headingStart?))
      (drawRows v place · rows) := by
  induction rows with
  | nil =>
    simp only [drawRows]
    exact performs_id
  | cons row rest ih =>
    obtain ⟨params, cells⟩ := row
    rw [Element.contents_cons, List.forall_mem_append] at h
    simp only [drawRows, Element.contents_cons, List.flatMap_append]
    exact ((performs_cells h.1 hpage).row params).comp (ih h.2)

theorem isSome_within (h : place.context.isSome) (e : Element Document) :
    (place.within e).context.isSome := by
  unfold Place.within Document.contextOf
  dsimp only
  split
  · rfl
  · exact h

theorem headed (v : View) (d : Document) : Headed v d := by
  induction d using Document.induct with
  | node e span ih =>
    intro place hpage
    have hinner := isSome_within hpage e
    -- What is done before and after an element is the same for all kinds.
    have hframe : ∀ {starts step}, Performs starts step → Performs starts fun s =>
        Rendering.leave e (step (Rendering.enter e s)) := fun hstep =>
      (hstep.after (performs_enter e)).before (performs_leave e)
    rw [Document.all_node]
    cases e with
    | list members =>
      simp only [draw]
      exact hframe (performs_members ih hinner span)
    | wrap w child =>
      have hnone : child = none → child.toList.flatMap (Document.all headingStart?) = [] := by
        rintro rfl
        rfl
      simp only [draw]
      exact hframe ((performs_child ih hinner).wrapped hnone hpage w)
    | table params rows =>
      simp only [draw]
      exact hframe ((performs_rows ih hinner).table params)
    | leaf l =>
      simp only [draw]
      exact hframe (performs_leaf v place span l)

/-- A document with a page at its top is written with the starts of the tags of all its headings, in
the order of the document. -/
theorem page_performs {d : Document} (h : d.element.isPage = true) (v : View) :
    ∃ acts, (d.all headingStart?).Sublist acts ∧ page v d = Writer.empty.perform acts := by
  obtain ⟨e, span⟩ := d
  obtain ⟨path, child, rfl⟩ : ∃ path child, e = .wrap (.page path) child := by
    change e.isPage = true at h
    unfold Element.isPage at h
    split at h
    · exact ⟨_, _, rfl⟩
    · cases h
  have hperforms : Performs (child.toList.flatMap (Document.all headingStart?))
      (draw v (Place.top (.node (.wrap (.page path) child) span)) ·
        (.node (.wrap (.page path) child) span)) := by
    simp only [draw]
    exact ((performs_child (fun d _ => headed v d) rfl).after (performs_enter _)).before
      (performs_leave _)
  obtain ⟨acts, hacts, hwriter⟩ := hperforms .empty
  let drawn := draw v (Place.top (.node (.wrap (.page path) child) span)) .empty
    (.node (.wrap (.page path) child) span)
  have hdrawn : drawn.writer = Writer.empty.perform acts := hwriter
  refine ⟨acts ++ List.replicate drawn.writer.depth .closeTag, ?_, ?_⟩
  · rw [Document.all_node]
    exact hacts.trans (List.sublist_append_left _ _)
  · rw [Writer.perform_append, ← hdrawn, Writer.perform_closeTags]
    rfl

end

end Html

end WikiHtml
