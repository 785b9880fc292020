-- The scripts of elements. Whatever a document is, it is drawn by a script, in which the pieces
-- that it puts in as they are stand in their order; so the messages decide about nothing else. The
-- links to the editor in it are for the ranges of the document.
import WikiHtml.Proofs.Html.EditRanges

namespace WikiHtml.Html

section

variable {v : View} {place : Place} {span : Option Span} {child : Option Document}
  {ok : EditRange → Prop} {bare : List Piece} {content : Settings → Rendering → Rendering}

/-! ## Links to the editor -/

/-- Texts that are written one after the other are written as one. -/
theorem Rendering.html_html (s : Rendering) (first second : String) :
    (s.html first).html second = s.html (first ++ second) := by
  rcases s with ⟨⟨title, head, attributes, lines, stack, _ | _⟩, afterBlock, skipped⟩ <;>
    rcases lines with _ | ⟨line, earlier⟩ <;>
    simp only [html, write, Writer.text, Writer.indentation, Writer.depth, String.append_assoc]

/-- The script of a link to the editor. -/
def Script.link (range : EditRange) (mark : EditMark) (afterBlock : Bool) : Script where
  acts := [.text (.fixed (editStart range mark)), .text (.editImage mark),
    .text (.fixed (endTag "a"))]
  afterBlock := afterBlock
  skipped := []

theorem Script.writes_link {range : EditRange} (hok : ok range) (mark : EditMark)
    (afterBlock : Bool) : (Script.link range mark afterBlock).Writes ok [] := by
  refine ⟨rfl, fun piece hpiece => ?_, editsOnly_link hok mark _⟩
  simp only [Script.link, List.mem_cons, Act.text.injEq, List.not_mem_nil, or_false] at hpiece
  rcases hpiece with rfl | rfl | rfl
  · exact finished_startTag "a" _
  · trivial
  · exact finished_endTag "a"

/-- A link to the editor is written in three texts. -/
theorem editLink_html {settings : Settings} (s : Rendering) (range : EditRange) (mark : EditMark) :
    ((s.html (editStart range mark)).html (editImage settings mark)).html (endTag "a") =
      s.html (editLink settings range.path range.span mark) := by
  have hlink : editLink settings range.path range.span mark =
      editStart range mark ++ editImage settings mark ++ endTag "a" := rfl
  rw [hlink, Rendering.html_html, Rendering.html_html, String.append_assoc]

theorem blind_editMark (v : View) (mark : EditMark)
    (h : ∀ range ∈ editRange? place.context span, ok range) :
    Blind ok [] fun settings s => editMark (v.withSettings settings) place span mark s := by
  unfold editRange? at h
  unfold editMark View.editLink? View.withSettings
  dsimp only
  rcases v.editLinks with _ | _
  · exact blind_id
  rcases hpath : place.context.join with _ | path
  · exact blind_id
  rcases span with _ | span
  · exact blind_id
  rw [hpath] at h
  have hok : ok ⟨path, span⟩ := h _ rfl
  refine fun afterBlock => ⟨.link ⟨path, span⟩ mark afterBlock, rfl, Script.writes_link hok mark _,
    fun settings s hs => ?_⟩
  subst hs
  exact (editLink_html s ⟨path, span⟩ mark).symm

/-! ## Elements that hold one -/

/-- What an element holds, or a label. -/
theorem Scripted.orLabel (h : Scripted ok bare content) (hbare : child = none → bare = [])
    (piece : Piece) (hpiece : piece.Sound) (hmark : piece.mark? = none) :
    Scripted ok ((if child.isSome then [] else [piece].filter Piece.isBare) ++ bare)
      fun settings s => orLabel child (content settings) (piece.fill settings) s := by
  unfold Html.orLabel
  rcases child with _ | child
  · have hlabel : Scripted ok ([piece].filter Piece.isBare) fun settings s =>
        s.html (piece.fill settings) := (blind_piece piece hpiece hmark).scripted
    obtain rfl := hbare rfl
    simp only [Option.isSome_none, Bool.false_eq_true, if_false, List.append_nil]
    exact hlabel
  · exact h

/-- What an element holds, or a label that is the same with all messages. -/
theorem Scripted.orText {label : String} (h : Scripted ok bare content)
    (hbare : child = none → bare = []) (hlabel : Finished label) :
    Scripted ok bare fun settings s => Html.orLabel child (content settings) label s := by
  have hpiece := h.orLabel hbare (.fixed label) hlabel rfl
  rcases child with _ | child <;> exact hpiece

/-- The message of a command is the same on any page. -/
theorem message_command? (outermost : Option String) (name : String) :
    (command? outermost name).map Command.message = (command? none name).map Command.message := by
  unfold command?
  split <;> rfl

theorem finished_unknown (name : String) : Finished ("wiki:" ++ Text.escape name ++ "?") := by
  refine finished_unmarked ?_
  rw [String.toList_append, String.toList_append]
  exact unmarked_append (unmarked_append ⟨by decide, by decide⟩ (unmarked_escape name))
    ⟨by decide, by decide⟩

theorem Scripted.commandLink (h : Scripted ok bare content) (hbare : child = none → bare = [])
    (name : String) :
    Scripted ok ((Document.barePiece? (.wrap (.linkWiki name) child)).toList ++ bare)
      fun settings s =>
        commandLink (v.withSettings settings) place child (content settings) name s := by
  have hmessage := message_command? place.outermost name
  unfold Html.commandLink
  rcases hcommand : command? place.outermost name with _ | ⟨url, message⟩
  · have hunknown : command? none name = none := by
      rw [hcommand] at hmessage
      exact Option.map_eq_none_iff.mp hmessage.symm
    have hnone : Document.barePiece? (.wrap (.linkWiki name) child) = none := by
      rcases child with _ | child
      · simp only [Document.barePiece?, hunknown, Option.map_none]
      · rfl
    rw [hnone]
    exact h.orText hbare (finished_unknown name)
  · obtain ⟨command, hknown, rfl⟩ : ∃ command, command? none name = some command ∧
        command.message = message := by
      rw [hcommand] at hmessage
      exact Option.map_eq_some_iff.mp hmessage.symm
    have hlabel := h.orLabel hbare (.words command.message) trivial rfl
    have hpiece : (Document.barePiece? (.wrap (.linkWiki name) child)).toList =
        if child.isSome then [] else [Piece.words command.message].filter Piece.isBare := by
      rcases child with _ | child
      · simp only [Document.barePiece?, hknown]
        rfl
      · rfl
    rw [hpiece]
    rcases url with _ | url
    · exact hlabel
    · exact (hlabel.tag (by decide) _).scripted

theorem Scripted.fileLink (h : Scripted ok bare content) (hbare : child = none → bare = [])
    (path : String) :
    Scripted ok (if place.context.isNone then [] else bare)
      fun settings s => fileLink place child (content settings) path s := by
  unfold Html.fileLink Place.absolutePath Document.absolutePath
  rcases place.context with _ | page
  · exact blind_id.scripted
  · exact ((h.orText hbare (finished_escape path)).tag (by decide) _).scripted

theorem ofTag?_headingTag (level : Nat) : ListKind.ofTag? (headingTag level) = none := by
  unfold headingTag
  split <;> decide

theorem Scripted.paragraph (h : Scripted ok bare content) (centered spacing : Bool)
    (indention : Nat) :
    Blind ok bare fun settings s =>
      (if spacing && s.afterBlock then s.verticalSpace else s).div
        (paragraphClass centered indention) (content settings) :=
  (Blind.ite blind_verticalSpace blind_id (spacing && ·)).comp
    (h.div (paragraphClass centered indention))

/-- An element that may hold one goes by a script if what it holds does. -/
theorem Scripted.wrapped (h : Scripted ok bare content) (hbare : child = none → bare = [])
    (w : Wrapper) (hsection : ∀ range ∈ headingRange? place (.node (.wrap w child) span), ok range) :
    Scripted ok ((Document.barePiece? (.wrap w child)).toList ++
        if Document.hidesHeld place.context (.wrap w child) then [] else bare)
      fun settings s =>
        wrapped (v.withSettings settings) place span child (content settings) s w := by
  cases w with
  | page path => exact h
  | xmlTag space name options => exact h
  | heading level =>
    have hmark : Blind ok [] fun settings s => editMark (v.withSettings settings) place
        (section? place level span) sectionMark s := blind_editMark v sectionMark hsection
    exact ((hmark.scripted.comp h).tag (ofTag?_headingTag level) (headingAttr child)).scripted
  | paragraph centered indention spacing => exact (h.paragraph centered spacing indention).scripted
  | listItem level isOrdered =>
    exact (scripted_nestLists level (.ofItem isOrdered)).comp (h.tag (by decide) "").scripted
  | htmlTag name attributes => exact h.listTag name (attributes.getD "")
  | linkPage path anchor =>
    have hlabel := h.orText hbare
      (finished_escape ((pageTarget v.repository place path).label path anchor))
    exact (hlabel.tag (by decide)
      ((pageTarget v.repository place path).attributes anchor)).scripted
  | linkWiki name => exact h.commandLink hbare name
  | linkLocalFile path => exact h.fileLink hbare path
  | linkExternal url =>
    have hlabel := h.orText hbare (finished_escape (externalLink url).2)
    exact (hlabel.tag (by decide)
      (attrs [("class", (externalLink url).1), ("href", url)])).scripted
  | _ => exact (h.tag (by decide) _).scripted

/-! ## Elements that hold none -/

theorem blind_task (state : TaskState) (schedule description : Option String) :
    Blind ok [] fun _ s => task state schedule description s := by
  have hschedule : ∀ schedule : String,
      Blind ok [] fun _ s => s.tag "span" (attr "class" "schedule") (·.text schedule) :=
    fun schedule => (blind_text schedule).scripted.tag (by decide) _
  rcases schedule with _ | schedule <;> rcases description with _ | description
  · exact blind_id.scripted.div (taskClass state)
  · exact (blind_text description).scripted.div (taskClass state)
  · exact (hschedule schedule).scripted.div (taskClass state)
  · exact ((hschedule schedule).comp (blind_text description)).scripted.div (taskClass state)

theorem finished_image (src : String) (options : Options) : Finished (image src options) :=
  finished_startTag "img" _

theorem finished_plainText (text : String) : Finished (plainText text) :=
  finished_of_sameTags (sameTags_plainText text)

theorem finished_code (language : Option String) (text : String) :
    Finished (Highlight.html language text) :=
  finished_of_sameTags (sameTags_code language text)

theorem blind_leaf (v : View) (place : Place) (span : Option Span) (l : Leaf)
    (h : ∀ range ∈ ownRanges place.context (.node (.leaf l) span), ok range) :
    Blind ok (Document.barePiece? (.leaf l)).toList
      fun settings s => leaf (v.withSettings settings) place span s l := by
  cases l with
  | text text => exact blind_text text
  | lineBreak => exact blind_newLine
  | nowiki text => exact blind_html (finished_plainText text)
  | html text => exact blind_piece (.html text) trivial rfl
  | anchor name => exact blind_id.scripted.tag (by decide) (attr "name" name)
  | image url options =>
    simp only [leaf]
    rcases imageSource? place url with _ | src
    · exact blind_id
    · exact blind_html (finished_image src options)
  | searchInput =>
    exact (blind_piece .searchField trivial rfl).scripted.tag (by decide) _
  | separator => exact blind_html (finished_startTag "hr" "")
  | verticalSpace => exact blind_verticalSpace
  | task state schedule description => exact blind_task state schedule description
  | code language text =>
    have hmark : Blind ok [] fun settings s => editMark (v.withSettings settings) place span
        codeMark s := blind_editMark v codeMark fun range hrange =>
      h range (Option.mem_toList.mpr hrange)
    exact (hmark.comp (blind_html (finished_code language text))).scripted.div "code"
  | _ => exact blind_skip _

/-! ## Tables -/

theorem Scripted.table (h : Scripted ok bare content) (params : Option String)
    (hrange : ∀ range ∈ editRange? place.context span, ok range) :
    Blind ok bare fun settings s =>
      table (v.withSettings settings) place span params (content settings) s :=
  (((((blind_editMark v tableMark hrange).scripted.comp
    (scripted_openTag "table" (paramsAttr params))).comp h).andThen blind_startLine).div "table")

theorem Scripted.row (h : Scripted ok bare content) (params : Option String) :
    Blind ok bare fun settings s => row params (content settings) s :=
  blind_startLine.comp ((h.andThen blind_startLine).tag (by decide) (paramsAttr params))

/-- What comes in a cell before its content. -/
theorem scripted_cellStart (v : View) (place : Place) (child : Option Document)
    (hrange : ∀ range ∈ editRange? place.context (child.bind Document.span), ok range) :
    Scripted ok [] fun settings s =>
      let s := if v.editLinks && (child.bind Document.span).isSome then
          editMark (v.withSettings settings) place (child.bind Document.span) cellMark
            (s.write (·.openDiv (some "tablecell") none))
        else s
      { s with afterBlock := false } := by
  dsimp only
  split
  · exact ((scripted_openTag "div" _).andThen
      (blind_editMark v cellMark hrange)).andThen (blind_afterBlock false)
  · exact (blind_afterBlock false).scripted

theorem Scripted.cell (h : Scripted ok bare content) (header : Bool) (params : Option String)
    (hrange : ∀ range ∈ editRange? place.context (child.bind Document.span), ok range) :
    Blind ok bare fun settings s =>
      cell (v.withSettings settings) place header params child (content settings) s := by
  have htag : ListKind.ofTag? (if header then "th" else "td") = none := by
    cases header <;> decide
  exact blind_startLine.comp
    (((scripted_cellStart v place child hrange).comp h).tag htag (paramsAttr params))

end

/-! ## Documents -/

section

variable {v : View}

/-- How a document is drawn depends on what there is after it has been entered. -/
theorem draw_of_enter (v : View) (place : Place) (span : Option Span) {e : Element Document}
    {s t : Rendering}
    (h : Rendering.enter e s = Rendering.enter e t) :
    draw v place s (.node e span) = draw v place t (.node e span) := by
  cases e <;> simp only [draw, h]

/-- The ranges of a document at a place are all of some kind, and so is its section if it is a
heading. -/
structure Granted (ok : EditRange → Prop) (place : Place) (d : Document) : Prop where
  ranges : ∀ range ∈ d.editRanges place.context, ok range
  heading : ∀ range ∈ headingRange? place d, ok range

/-- A document is drawn by a script, wherever it stands. -/
def Drawn (ok : EditRange → Prop) (v : View) (d : Document) : Prop :=
  ∀ place, Granted ok place d → Scripted ok (d.barePieces place.context) fun settings s =>
    draw (v.withSettings settings) place s d

/-- Any ranges are of the kind that all ranges are of. -/
theorem granted_all (place : Place) (d : Document) : Granted (fun _ => True) place d :=
  ⟨fun _ _ => trivial, fun _ _ => trivial⟩

theorem granted_of_not_inList {place : Place} (h : place.inList = none) {d : Document}
    (hranges : ∀ range ∈ d.editRanges place.context, ok range) : Granted ok place d where
  ranges := hranges
  heading range hrange := by
    rw [headingRange?_of_not_inList h] at hrange
    cases hrange

theorem scripted_members {members : List Document} (h : ∀ d ∈ members, Drawn ok v d)
    (place : Place) (span : Option Span)
    (hsections : ∀ range ∈ sectionRanges place.context span members, ok range)
    (hranges : ∀ d ∈ members, ∀ range ∈ d.editRanges place.context, ok range) :
    Scripted ok (members.flatMap (Document.barePieces place.context)) fun settings s =>
      drawMembers (v.withSettings settings) place span s members := by
  induction members with
  | nil =>
    simp only [drawMembers]
    exact blind_id.scripted
  | cons d rest ih =>
    simp only [sectionRanges, List.forall_mem_append] at hsections
    have hgranted : Granted ok (place.member rest span) d :=
      ⟨hranges d List.mem_cons_self, fun range hrange =>
        hsections.1 range (Option.mem_toList.mpr hrange)⟩
    have hrest := ih (fun c hc => h c (List.mem_cons_of_mem d hc)) hsections.2
      fun c hc => hranges c (List.mem_cons_of_mem d hc)
    simp only [drawMembers]
    exact (h d List.mem_cons_self (place.member rest span) hgranted).comp hrest

theorem scripted_child {child : Option Document} (h : ∀ d ∈ child.toList, Drawn ok v d)
    (place : Place) (hgranted : ∀ d ∈ child.toList, Granted ok place d) :
    Scripted ok (child.toList.flatMap (Document.barePieces place.context)) fun settings s =>
      drawChild (v.withSettings settings) place s child := by
  cases child with
  | none =>
    simp only [drawChild]
    exact blind_id.scripted
  | some d =>
    simp only [drawChild, Option.toList_some, List.flatMap_singleton]
    exact h d (by simp) place (hgranted d (by simp))

theorem scripted_cells {cells : List (Cell Document)}
    (h : ∀ d ∈ Element.rowContents cells, Drawn ok v d) (place : Place)
    (hranges : ∀ range ∈ cellRanges place.context (Element.rowContents cells), ok range)
    (hgranted : ∀ d ∈ Element.rowContents cells, Granted ok place d) :
    Scripted ok ((Element.rowContents cells).flatMap (Document.barePieces place.context))
      fun settings s => drawCells (v.withSettings settings) place s cells := by
  induction cells with
  | nil =>
    simp only [drawCells]
    exact blind_id.scripted
  | cons cell rest ih =>
    obtain ⟨header, params, content⟩ := cell
    rw [Element.rowContents_cons] at h hranges hgranted ⊢
    rw [cellRanges, List.filterMap_append] at hranges
    rw [List.forall_mem_append] at h hranges hgranted
    have hcontent := scripted_child h.1 place hgranted.1
    have hrange : ∀ range ∈ editRange? place.context (content.bind Document.span), ok range := by
      intro range hrange
      cases content with
      | none =>
        rw [Option.bind_none, editRange?_none] at hrange
        cases hrange
      | some d => exact hranges.1 range (by simpa using hrange)
    have hrest := ih h.2 hranges.2 hgranted.2
    simp only [drawCells, List.flatMap_append]
    exact (hcontent.cell header params hrange).scripted.comp hrest

theorem scripted_rows {rows : List (Row Document)}
    (h : ∀ d ∈ Element.contents rows, Drawn ok v d) (place : Place)
    (hranges : ∀ range ∈ cellRanges place.context (Element.contents rows), ok range)
    (hgranted : ∀ d ∈ Element.contents rows, Granted ok place d) :
    Scripted ok ((Element.contents rows).flatMap (Document.barePieces place.context))
      fun settings s => drawRows (v.withSettings settings) place s rows := by
  induction rows with
  | nil =>
    simp only [drawRows]
    exact blind_id.scripted
  | cons row rest ih =>
    obtain ⟨params, cells⟩ := row
    rw [Element.contents_cons] at h hranges hgranted ⊢
    rw [cellRanges, List.filterMap_append] at hranges
    rw [List.forall_mem_append] at h hranges hgranted
    have hcells := scripted_cells h.1 place hranges.1 hgranted.1
    have hrest := ih h.2 hranges.2 hgranted.2
    simp only [drawRows, List.flatMap_append]
    exact (hcells.row params).scripted.comp hrest

/-- Every document is drawn by a script. -/
theorem drawn (ok : EditRange → Prop) (v : View) (d : Document) : Drawn ok v d := by
  induction d using Document.induct with
  | node e span ih =>
    intro place hgranted
    -- What is done before and after an element is the same for all kinds.
    have hframe : ∀ {bare step}, Scripted ok bare step → Scripted ok bare fun settings s =>
        Rendering.leave e (step settings (Rendering.enter e s)) := fun hstep =>
      ((scripted_enter e).comp hstep).andThen (blind_leave e)
    have hranges := hgranted.ranges
    rw [Document.editRanges_node, List.forall_mem_append, List.forall_mem_flatMap] at hranges
    obtain ⟨hown, hbelow⟩ := hranges
    -- What stands in no list has no section.
    have hheld : ∀ c ∈ e.children, Granted ok (place.within e) c := fun c hc =>
      granted_of_not_inList rfl (hbelow c hc)
    rw [Document.barePieces_node]
    cases e with
    | list members =>
      simp only [draw]
      exact hframe (scripted_members ih (place.within (.list members)) span hown hbelow)
    | wrap w child =>
      have hchild := scripted_child ih (place.within (.wrap w child)) hheld
      have hnone : child = none → child.toList.flatMap
          (Document.barePieces (place.within (.wrap w child)).context) = [] := by
        rintro rfl
        rfl
      simp only [draw]
      exact hframe (hchild.wrapped hnone w hgranted.heading)
    | table params rows =>
      obtain ⟨hspan, hcells⟩ := List.forall_mem_append.mp hown
      have hrows := scripted_rows ih (place.within (.table params rows)) hcells hheld
      simp only [draw]
      exact hframe (hrows.table params fun range hrange =>
        hspan range (Option.mem_toList.mpr hrange)).scripted
    | leaf l =>
      simp only [draw]
      have hleaf := (blind_leaf v place span l hown).scripted
      have hheld : (if Document.hidesHeld place.context (.leaf l) then ([] : List Piece)
          else (Element.leaf l).children.flatMap
            (Document.barePieces (Document.contextOf place.context (.leaf l)))) = [] := by
        split <;> rfl
      rw [hheld, List.append_nil]
      exact hframe hleaf

/-- Every document is drawn by a script, whatever ranges it has. -/
theorem scripted_draw (v : View) (place : Place) (d : Document) :
    Scripted (fun _ => True) (d.barePieces place.context) fun settings s =>
      draw (v.withSettings settings) place s d :=
  drawn _ v d place (granted_all place d)

/-- What goes by a script performs acts on the writer, which depend on the open tags and on whether
a block came before. -/
theorem Scripted.performs {ok : EditRange → Prop} {bare : List Piece}
    {content : Settings → Rendering → Rendering} (h : Scripted ok bare content)
    (settings : Settings) (stack : List String) (afterBlock : Bool) :
    ∃ acts, ∀ s, s.writer.stack = stack → s.afterBlock = afterBlock →
      (content settings s).writer = s.writer.perform acts := by
  obtain ⟨script, own, -, -, hplay⟩ := h stack afterBlock
  refine ⟨script.acts.map (Act.map (Piece.fill settings)), fun s hstack hs => ?_⟩
  exact congrArg Rendering.writer (hplay settings s [] rfl (by rw [hstack, List.append_nil]) hs)

/-- A page is written by the same acts with all messages. They put in the pieces of the document as
they are, and leave no tag unfinished elsewhere; and their links to the editor are for the ranges of
the document. -/
theorem page_performed (ok : EditRange → Prop) (v : View) {d : Document}
    (h : ∀ range ∈ d.editRanges none, ok range) :
    ∃ acts, barePieces acts = d.barePieces none ∧ (∀ piece, .text piece ∈ acts → piece.Sound) ∧
      EditsOnly ok acts ∧ ∀ settings, page (v.withSettings settings) d =
        Writer.empty.perform (acts.map (Act.map (Piece.fill settings))) := by
  obtain ⟨script, own, hown, hwrites, hplay⟩ :=
    drawn ok v d (Place.top d) (granted_of_not_inList rfl h) [] false
  have hall := hwrites.andThen (Script.writes_closings own.length script.afterBlock)
  rw [List.append_nil] at hall
  refine ⟨_, hall.bare, hall.sound, hall.edits, fun settings => ?_⟩
  have hdrawn := hplay settings .empty [] rfl rfl rfl
  have hdepth : (script.play settings .empty).writer.depth = own.length := by
    unfold Writer.depth
    rw [script.stack_play hown (List.append_nil []).symm settings, List.append_nil]
  dsimp only at hdrawn
  unfold page
  rw [hdrawn]
  change _ = ((script.andThen (Script.closings own.length script.afterBlock)).play settings
    .empty).writer
  rw [Script.play_andThen]
  change _ = ((Script.closings own.length (script.play settings .empty).afterBlock).play settings
    (script.play settings .empty)).writer
  rw [Script.play_closings, ← hdepth]
  rfl

/-! ## Items -/

theorem item_of_isListItem {e : Element Document} (h : Rendering.isListItem e = true) :
    ∃ level isOrdered child, e = .wrap (.listItem level isOrdered) child := by
  unfold Rendering.isListItem at h
  split at h
  · exact ⟨_, _, _, rfl⟩
  · cases h

/-- What is written for an item of a list when its list is open. -/
def itemBody (v : View) (place : Place) (level : Nat) (isOrdered : Bool) (child : Option Document)
    (s : Rendering) : Rendering :=
  Rendering.leave (.wrap (.listItem level isOrdered) child)
    (s.tag "li" "" fun s =>
      drawChild v (place.within (.wrap (.listItem level isOrdered) child)) s child)

theorem draw_item (v : View) (place : Place) (s : Rendering) (level : Nat) (isOrdered : Bool)
    (child : Option Document) (span : Option Span) :
    draw v place s (.node (.wrap (.listItem level isOrdered) child) span) =
      itemBody v place level isOrdered child
        (s.startLine.write (·.nestLists level (.ofItem isOrdered))) := by
  simp only [draw, wrapped]
  rfl

theorem blind_itemBody (v : View) (place : Place) (level : Nat) (isOrdered : Bool)
    (child : Option Document) :
    ∃ bare, Blind (fun _ => True) bare fun settings s =>
      itemBody (v.withSettings settings) place level isOrdered child s := by
  have hheld : ∀ d ∈ child.toList, Drawn (fun _ => True) v d := fun d _ => drawn _ v d
  have hchild := scripted_child hheld (place.within (.wrap (.listItem level isOrdered) child))
    fun d _ => granted_all _ d
  exact ⟨_, (hchild.tag (show ListKind.ofTag? "li" = none by decide) "").comp
    (blind_leave (.wrap (.listItem level isOrdered) child))⟩

end

end WikiHtml.Html
