-- Lists in lists. A list among the members of a list is drawn as if its own members stood there, if
-- its first member is no list item and a paragraph that follows it keeps no distance; with other
-- lists, what comes before or after it shows that there was a list.
import WikiHtml.Document.Build
import WikiHtml.Proofs.Html.Drawn
import WikiHtml.Proofs.Html.Lines

namespace WikiHtml.Html

/-! ## Without links to the editor -/

section

variable {v : View} {place : Place} {span : Option Span} {s : Rendering}

theorem editMark_off (hv : v.editLinks = false) (place : Place) (span : Option Span)
    (mark : EditMark) (s : Rendering) : editMark v place span mark s = s := by
  unfold editMark View.editLink?
  rw [hv]
  rfl

/-- Without links to the editor it does not matter which members of a list follow. -/
theorem draw_inList (hv : v.editLinks = false) (place : Place) (inList : Option InList)
    (s : Rendering) (d : Document) :
    draw v { place with inList := inList } s d = draw v place s d := by
  obtain ⟨e, span⟩ := d
  cases e with
  | list members =>
    simp only [draw]
    rfl
  | wrap w child =>
    simp only [draw]
    cases w with
    | heading level =>
      simp only [wrapped, editMark_off hv]
      rfl
    | _ => rfl
  | table params rows =>
    simp only [draw, table, editMark_off hv]
    rfl
  | leaf l =>
    simp only [draw]
    cases l with
    | code language text =>
      simp only [leaf, editMark_off hv]
    | _ => rfl

theorem drawMembers_off (hv : v.editLinks = false) (place : Place) (span : Option Span)
    (s : Rendering) (members : List Document) :
    drawMembers v place span s members = members.foldl (draw v place) s := by
  induction members generalizing s with
  | nil => rfl
  | cons d rest ih =>
    rw [drawMembers, ih, List.foldl_cons]
    exact congrArg (rest.foldl _) (draw_inList hv place _ s d)

/-! ## Members -/

/-- After an element that is no anchor, whether a block comes before depends on the element only. -/
theorem afterBlock_draw (v : View) (place : Place) (s : Rendering) (d : Document) :
    (draw v place s d).afterBlock =
      if Rendering.isAnchor d.element then s.afterBlock else Rendering.isSpacedBlock d.element := by
  obtain ⟨e, span⟩ := d
  change _ = if Rendering.isAnchor e then s.afterBlock else Rendering.isSpacedBlock e
  by_cases he : Rendering.isAnchor e = true
  · obtain ⟨name, rfl⟩ : ∃ name, e = .leaf (.anchor name) := by
      unfold Rendering.isAnchor at he
      split at he
      · exact ⟨_, rfl⟩
      · cases he
    simp only [draw]
    rfl
  · rw [if_neg he]
    cases e <;>
    · simp only [draw, Rendering.leave]
      rw [if_neg he]

/-- The last of documents that is no anchor. -/
def lastShown? (members : List Document) : Option Document :=
  (members.filter fun d => !Rendering.isAnchor d.element).getLast?

theorem afterBlock_members (v : View) (place : Place) (s : Rendering) (members : List Document) :
    (members.foldl (draw v place) s).afterBlock =
      ((lastShown? members).map fun d => Rendering.isSpacedBlock d.element).getD s.afterBlock := by
  unfold lastShown?
  induction members generalizing s with
  | nil => rfl
  | cons d rest ih =>
    rw [List.foldl_cons, ih, afterBlock_draw]
    by_cases hd : Rendering.isAnchor d.element = true
    · simp [hd]
    · simp only [hd, List.filter_cons, Bool.not_false, if_true, List.getLast?_cons]
      cases (rest.filter fun d => !Rendering.isAnchor d.element).getLast? <;> rfl

theorem draw_list (hv : v.editLinks = false) (place : Place) (s : Rendering)
    (members : List Document) (span : Option Span) :
    draw v place s (.node (.list members) span) =
      { members.foldl (draw v place) (s.write Writer.finishLists) with afterBlock := false } := by
  have hplace : draw v (place.within (.list members)) = draw v place := by
    funext s d
    exact draw_inList hv place none s d
  simp only [draw]
  rw [drawMembers_off hv, hplace]
  rfl

/-! ## Lists that blend in -/

/-- The members of a list can stand in its place: the first is no list item, so that lists end
before it, and the last, anchors not counted, is none that a paragraph keeps away from. -/
structure Blends (inner : List Document) : Prop where
  first : ∃ d rest, inner = d :: rest ∧ Rendering.isListItem d.element = false
  last : ∃ d, lastShown? inner = some d ∧ Rendering.isSpacedBlock d.element = false

theorem enter_finished {e : Element Document} (he : Rendering.isListItem e = false)
    (s : Rendering) :
    Rendering.enter e (s.write Writer.finishLists) = Rendering.enter e s := by
  have hfinish : (s.write Writer.finishLists).write Writer.finishLists =
      s.write Writer.finishLists :=
    congrArg (Rendering.mk · s.afterBlock s.skipped)
      (Writer.finishLists_of_listRun s.writer.listRun_finishLists)
  unfold Rendering.enter
  rw [he, if_neg Bool.false_ne_true, if_neg Bool.false_ne_true, hfinish]

/-- A list that blends in is drawn like its members. -/
theorem Blends.draw_list {inner : List Document} (h : Blends inner) (hv : v.editLinks = false)
    (place : Place) (s : Rendering) (span : Option Span) :
    draw v place s (.node (.list inner) span) = inner.foldl (draw v place) s := by
  have hfirst : inner.foldl (draw v place) (s.write Writer.finishLists) =
      inner.foldl (draw v place) s := by
    obtain ⟨⟨e, span⟩, rest, rfl, he⟩ := h.first
    exact congrArg (rest.foldl _) (draw_of_enter v place span (enter_finished he s))
  have hlast : (inner.foldl (draw v place) s).afterBlock = false := by
    obtain ⟨d, hd, hspaced⟩ := h.last
    rw [afterBlock_members, hd, Option.map_some, Option.getD_some, hspaced]
  rw [Html.draw_list hv, hfirst, ← hlast]

/-! ## Splicing -/

/-- The second document is the first one with the members of a list in place of that list, which is
a member of another list. -/
inductive Spliced (inner : List Document) : Document → Document → Prop
  | here (before after : List Document) (span innerSpan : Option Span) :
    Spliced inner (.node (.list (before ++ .node (.list inner) innerSpan :: after)) span)
      (.node (.list (before ++ inner ++ after)) span)
  | member (before after : List Document) {d d' : Document} (span : Option Span)
      (h : Spliced inner d d') :
    Spliced inner (.node (.list (before ++ d :: after)) span)
      (.node (.list (before ++ d' :: after)) span)
  | child (w : Wrapper) {d d' : Document} (span : Option Span) (h : Spliced inner d d') :
    Spliced inner (.node (.wrap w (some d)) span) (.node (.wrap w (some d')) span)
  | cell (params : Option String) (before after : List (Row Document)) (rowParams : Option String)
      (left right : List (Cell Document)) (header : Bool) (cellParams : Option String)
      {d d' : Document} (span : Option Span) (h : Spliced inner d d') :
    Spliced inner
      (.node (.table params
        (before ++ ⟨rowParams, left ++ ⟨header, cellParams, some d⟩ :: right⟩ :: after)) span)
      (.node (.table params
        (before ++ ⟨rowParams, left ++ ⟨header, cellParams, some d'⟩ :: right⟩ :: after)) span)

section

variable {inner : List Document} {d d' : Document}

theorem texts_node (e : Element Document) (span : Option Span) :
    (Document.node e span).all Document.textOf? =
      (Document.textOf? e).toList ++ e.children.flatMap (·.all Document.textOf?) := by
  unfold Document.all
  rw [Document.search_node]
  simp only [Document.element, Option.toList_some, List.flatMap_singleton]

/-- The text of a document says nothing of its lists. -/
theorem Spliced.texts (h : Spliced inner d d') :
    d'.all Document.textOf? = d.all Document.textOf? := by
  induction h with
  | here before after span innerSpan =>
    simp [texts_node, Element.children, Document.textOf?]
  | member before after span h ih =>
    simp [texts_node, Element.children, Document.textOf?, ih]
  | child w span h ih =>
    simp [texts_node, Element.children, Document.textOf?, ih]
  | cell params before after rowParams left right header cellParams span h ih =>
    simp [texts_node, Element.children, Element.contents, Document.textOf?, ih]

theorem headingAttr_spliced (h : Spliced inner d d') :
    headingAttr (some d') = headingAttr (some d) := by
  unfold headingAttr Document.textContent
  simp only [Option.map_some, h.texts]

/-- An element that holds one is drawn alike if what it holds is. -/
theorem draw_wrap (h : Spliced inner d d') (hd : ∀ place s, draw v place s d' = draw v place s d)
    (place : Place) (s : Rendering) (w : Wrapper) (span : Option Span) :
    draw v place s (.node (.wrap w (some d')) span) =
      draw v place s (.node (.wrap w (some d)) span) := by
  cases w with
  | heading level =>
    simp only [draw, drawChild, wrapped, hd, headingAttr_spliced h]
    rfl
  | _ =>
    simp only [draw, drawChild, hd]
    rfl

theorem drawCells_append (v : View) (place : Place) (s : Rendering)
    (left right : List (Cell Document)) :
    drawCells v place s (left ++ right) = drawCells v place (drawCells v place s left) right := by
  induction left generalizing s with
  | nil => rfl
  | cons cell rest ih =>
    rw [List.cons_append, drawCells, drawCells, ih]

theorem drawRows_append (v : View) (place : Place) (s : Rendering)
    (before after : List (Row Document)) :
    drawRows v place s (before ++ after) = drawRows v place (drawRows v place s before) after := by
  induction before generalizing s with
  | nil => rfl
  | cons row rest ih =>
    rw [List.cons_append, drawRows, drawRows, ih]

/-- A cell is drawn alike if what it holds is. -/
theorem cell_off (hv : v.editLinks = false) (place : Place) (header : Bool) (params : Option String)
    (child child' : Option Document) (content : Rendering → Rendering) :
    cell v place header params child' content = cell v place header params child content := by
  funext s
  simp only [cell, hv, Bool.false_and, Bool.false_eq_true, if_false]

/-- Where a list blends in, a document is drawn like the one in which its members stand in its
place. -/
theorem Blends.draw_spliced (hinner : Blends inner) (hv : v.editLinks = false)
    (h : Spliced inner d d') (place : Place) (s : Rendering) :
    draw v place s d' = draw v place s d := by
  induction h generalizing place s with
  | here before after span innerSpan =>
    rw [Html.draw_list hv, Html.draw_list hv, List.foldl_append, List.foldl_append,
      List.foldl_append, List.foldl_cons, hinner.draw_list hv]
  | member before after span h ih =>
    rw [Html.draw_list hv, Html.draw_list hv, List.foldl_append, List.foldl_append, List.foldl_cons,
      List.foldl_cons, ih]
  | child w span h ih => exact draw_wrap h ih place s w span
  | @cell params before after rowParams left right header cellParams d d' span h ih =>
    simp only [draw, drawRows_append, drawRows, drawCells_append, drawCells, drawChild, ih,
      cell_off hv _ _ _ (some d) (some d')]
    rfl

theorem top_spliced (h : Spliced inner d d') : Place.top d' = Place.top d := by
  cases h with
  | child w span h => cases w <;> rfl
  | _ => rfl

/-- Where a list blends in, the page is the same with its members in its place. -/
theorem Blends.page_spliced (hinner : Blends inner) (hv : v.editLinks = false)
    (h : Spliced inner d d') : page v d' = page v d := by
  unfold page
  rw [top_spliced h, hinner.draw_spliced hv h]

end

/-! ## Lists that do not blend in -/

theorem writer_tag_id (s : Rendering) (name attributes : String) :
    (s.tag name attributes id).writer = s.writer.perform [.openTag name attributes, .closeTag] := by
  have hdepth : (s.writer.openTag name attributes).depth - s.writer.depth = 1 := by
    unfold Writer.depth
    rw [Writer.stack_openTag, List.length_cons]
    omega
  change (s.writer.openTag name attributes).closeTo s.writer.depth = _
  unfold Writer.closeTo
  rw [hdepth]
  rfl

/-- A paragraph that holds nothing. -/
def emptyParagraph (spacing : Bool) : Document :=
  .node (.wrap (.paragraph false 0 spacing) none) none

/-- An item of a list that holds nothing. -/
def emptyItem (level : Nat) (isOrdered : Bool) : Document :=
  .node (.wrap (.listItem level isOrdered) none) none

/-- What is written for an empty paragraph with vertical spacing. -/
theorem writer_emptyParagraph (v : View) (place : Place) (s : Rendering) :
    (draw v place s (emptyParagraph true)).writer =
      (if s.afterBlock then s.writer.finishLists.startLine.perform
          [.openTag "div" (" ".intercalate [attr "class" "verticalspace"]), .closeTag, .startLine]
        else s.writer.finishLists.startLine).perform
          [.openTag "div" (" ".intercalate [attr "class" (paragraphClass false 0)]), .closeTag,
            .startLine] := by
  have hblock : ∀ (s : Rendering) (cssClass : String), (s.div cssClass id).startLine.writer =
      s.writer.perform
        [.openTag "div" (" ".intercalate [attr "class" cssClass]), .closeTag, .startLine] :=
    fun s cssClass => congrArg Writer.startLine (writer_tag_id s "div" _)
  have hdraw : draw v place s (emptyParagraph true) =
      { (((if s.afterBlock then (s.write Writer.finishLists).startLine.verticalSpace
          else (s.write Writer.finishLists).startLine).div (paragraphClass false 0) id).startLine)
        with afterBlock := true } := by
    simp only [emptyParagraph, draw, wrapped, drawChild, Bool.true_and]
    rfl
  rw [hdraw]
  change (Rendering.startLine (Rendering.div
    (if s.afterBlock then (s.write Writer.finishLists).startLine.verticalSpace
      else (s.write Writer.finishLists).startLine) (paragraphClass false 0) id)).writer = _
  rw [hblock]
  split
  · exact congrArg (Writer.perform · _) (hblock _ "verticalspace")
  · rfl

/-- A paragraph that keeps a distance from the block before it is a line longer. -/
theorem ahead_paragraph (v : View) (place : Place) (hs : s.afterBlock = true)
    (hstarted : s.writer.lines ≠ []) :
    Writer.Ahead 1 (draw v place { s with afterBlock := false } (emptyParagraph true)).writer
      (draw v place s (emptyParagraph true)).writer := by
  have hfinished : s.writer.finishLists.startLine.lines ≠ [] := by
    have hperformed := Writer.started_perform hstarted
      (listClosings (listRun s.writer.stack).length)
    rwa [Writer.perform_listClosings] at hperformed
  have hahead := (Writer.ahead_block (w := s.writer.finishLists.startLine) rfl hfinished "div"
    (" ".intercalate [attr "class" "verticalspace"])).perform
      [.openTag "div" (" ".intercalate [attr "class" (paragraphClass false 0)]), .closeTag,
        .startLine]
  rw [writer_emptyParagraph, writer_emptyParagraph, hs]
  exact hahead

theorem started_members (hstarted : s.writer.lines ≠ []) (members : List Document) :
    (members.foldl (draw v place) s).writer.lines ≠ [] := by
  induction members generalizing s with
  | nil => exact hstarted
  | cons d rest ih =>
    refine ih ?_
    obtain ⟨acts, hacts⟩ := (scripted_draw v place d).performs v.settings s.writer.stack s.afterBlock
    have hdrawn : (draw v place s d).writer = s.writer.perform acts := hacts s rfl rfl
    rw [hdrawn]
    exact Writer.started_perform hstarted acts

/-- Where a document without a page around it stands. -/
def nowhere : Place := ⟨none, none, none⟩

theorem page_group (hv : v.editLinks = false) (members : List Document) :
    page v (Document.group members) =
      (members.foldl (draw v nowhere) .empty).writer.closeAll := by
  unfold page Document.group
  rw [draw_list hv]
  rfl

theorem finishLists_of_nil (h : listRun s.writer.stack = []) : s.write Writer.finishLists = s :=
  congrArg (Rendering.mk · s.afterBlock s.skipped) (Writer.finishLists_of_listRun h)

/-- A list after a paragraph and before one that keeps a distance shows, unless its last member,
anchors not counted, is none that a paragraph keeps away from. -/
theorem last_of_same_body (hv : v.editLinks = false) (inner : List Document)
    (h : (page v (Document.group ([emptyParagraph false] ++ inner ++ [emptyParagraph true]))).body =
      (page v (Document.group
        ([emptyParagraph false] ++ Document.group inner :: [emptyParagraph true]))).body) :
    ∃ d, lastShown? inner = some d ∧ Rendering.isSpacedBlock d.element = false := by
  by_contra hlast
  obtain ⟨hstack, hstarted, hblock⟩ :
      (draw v nowhere .empty (emptyParagraph false)).writer.stack = [] ∧
        (draw v nowhere .empty (emptyParagraph false)).writer.lines ≠ [] ∧
        (draw v nowhere .empty (emptyParagraph false)).afterBlock = true := by
    simp only [emptyParagraph, draw, wrapped, drawChild]
    decide
  have hlists : listRun (draw v nowhere .empty (emptyParagraph false)).writer.stack = [] := by
    rw [hstack]
    rfl
  have hspaced : (inner.foldl (draw v nowhere)
      (draw v nowhere .empty (emptyParagraph false))).afterBlock = true := by
    rw [afterBlock_members, hblock]
    rcases hd : lastShown? inner with _ | d
    · rfl
    · exact eq_true_of_ne_false fun hspaced => hlast ⟨d, hd, hspaced⟩
  -- The paragraph at the end sees a block in front of it only if there is no list between them.
  have hahead := ahead_paragraph v nowhere hspaced (started_members hstarted inner)
  refine hahead.closeAll.body_ne Nat.one_ne_zero ?_
  rw [page_group hv, page_group hv, List.foldl_append, List.foldl_append, List.foldl_append] at h
  simp only [List.foldl_cons, List.foldl_nil] at h
  rw [h, Document.group, draw_list hv, finishLists_of_nil hlists]

theorem writer_emptyItem (v : View) (place : Place) (s : Rendering) (level : Nat)
    (isOrdered : Bool) :
    (draw v place s (emptyItem level isOrdered)).writer =
      (s.writer.startLine.nestLists level (.ofItem isOrdered)).perform
        [.openTag "li" "", .closeTag, .startLine] := by
  have hbody : itemBody v place level isOrdered none
      (s.startLine.write (·.nestLists level (.ofItem isOrdered))) =
      { ((s.startLine.write (·.nestLists level (.ofItem isOrdered))).tag "li" "" id).startLine
        with afterBlock := true } := by
    simp only [itemBody, drawChild]
    rfl
  rw [emptyItem, draw_item, hbody]
  exact congrArg Writer.startLine (writer_tag_id _ "li" "")

/-- A first item leaves its lists open. -/
theorem emptyItem_written (v : View) (level : Nat) (isOrdered : Bool) :
    (draw v nowhere .empty (emptyItem level isOrdered)).writer.stack =
        List.replicate level (ListKind.ofItem isOrdered).tag ∧
      (draw v nowhere .empty (emptyItem level isOrdered)).writer.lines ≠ [] ∧
      (draw v nowhere .empty (emptyItem level isOrdered)).writer.atNewLine = true := by
  have hnested : Writer.empty.startLine.nestLists level (.ofItem isOrdered) =
      Writer.empty.openLists (.ofItem isOrdered) level :=
    Writer.nestLists_of_surplus (w := Writer.empty.startLine) rfl (Writer.surplus_nil level _)
  have hwritten := writer_emptyItem v nowhere .empty level isOrdered
  change _ = (Writer.empty.startLine.nestLists level (.ofItem isOrdered)).perform _ at hwritten
  rw [hnested] at hwritten
  rw [hwritten]
  refine ⟨?_, ?_, rfl⟩
  · have hkept : own? [] [.openTag "li" "", .closeTag, (.startLine : Act String)] = some [] := rfl
    have hstack := Writer.stack_openLists .empty (.ofItem isOrdered) level
    exact (Writer.stack_perform (List.nil_append _).symm hkept).trans
      (hstack.trans (List.append_nil _))
  · have hopened :
        ((Writer.empty.openLists (.ofItem isOrdered) level).openTag "li" "").lines ≠ [] :=
      Writer.lines_text_ne_nil _ _
    exact Writer.started_perform hopened [.closeTag, .startLine]

theorem startLine_self {w : Writer} (h : w.atNewLine = true) : w.startLine = w := by
  cases w
  cases h
  rfl

/-- A list after an item shows if its first member is an item of the same level. -/
theorem first_of_same_body (hv : v.editLinks = false) {level : Nat} (hlevel : 1 ≤ level)
    (isOrdered : Bool) (child : Option Document) (span : Option Span) (rest : List Document) :
    (page v (Document.group ([emptyItem level isOrdered] ++
        [Document.group (.node (.wrap (.listItem level isOrdered) child) span :: rest)]))).body ≠
      (page v (Document.group ([emptyItem level isOrdered] ++
        (.node (.wrap (.listItem level isOrdered) child) span :: rest) ++ []))).body := by
  obtain ⟨hstack, hstarted, hline⟩ := emptyItem_written v level isOrdered
  generalize hs : draw v nowhere .empty (emptyItem level isOrdered) = s at hstack hstarted hline
  have hrun : listRun s.writer.stack = List.replicate level (.ofItem isOrdered) := by
    rw [hstack, listRun_replicate]
  obtain ⟨hlength, -, hclosed⟩ := Writer.lines_closeLists hline hstarted
    (show level ≤ s.writer.stack.length by rw [hstack, List.length_replicate])
  -- The item in the list itself, and the item in the list within it.
  have hkept : s.writer.startLine.nestLists level (.ofItem isOrdered) = s.writer := by
    have hnested := Writer.nestLists_of_surplus (w := s.writer.startLine) hrun
      (Writer.surplus_replicate hlevel _)
    rw [hnested, List.length_replicate, Nat.sub_self]
    exact startLine_self hline
  have hreopened : s.writer.finishLists.startLine.nestLists level (.ofItem isOrdered) =
      (s.writer.closeLists level).openLists (.ofItem isOrdered) level := by
    have hfinish : s.writer.finishLists = s.writer.closeLists level := by
      unfold Writer.finishLists
      rw [hrun, List.length_replicate]
    have hnested := Writer.nestLists_of_surplus (w := s.writer.finishLists.startLine)
      s.writer.listRun_finishLists (Writer.surplus_nil level (.ofItem isOrdered))
    rw [hnested, hfinish, startLine_self hclosed]
    rfl
  have hahead := Writer.ahead_reopened hline hstarted hstack
  -- What follows does the same in both.
  obtain ⟨bare, hbody⟩ := blind_itemBody v nowhere level isOrdered child
  have hmembers := scripted_members (fun d (_ : d ∈ rest) => drawn _ v d) nowhere none
    (fun _ _ => trivial) fun _ _ _ _ => trivial
  obtain ⟨acts, hacts⟩ :=
    (hbody.scripted.comp hmembers).performs v.settings s.writer.stack s.afterBlock
  have hrest : ∀ w : Writer, w.stack = s.writer.stack →
      (rest.foldl (draw v nowhere)
          (itemBody v nowhere level isOrdered child (s.write fun _ => w))).writer =
        w.perform acts := by
    intro w hw
    rw [← drawMembers_off hv nowhere none]
    exact hacts (s.write fun _ => w) hw rfl
  have hflat : s.startLine.write (·.nestLists level (.ofItem isOrdered)) =
      s.write fun _ => s.writer :=
    congrArg (Rendering.mk · s.afterBlock s.skipped) hkept
  have hnested : (s.write Writer.finishLists).startLine.write
      (·.nestLists level (.ofItem isOrdered)) =
        s.write fun _ => (s.writer.closeLists level).openLists (.ofItem isOrdered) level :=
    congrArg (Rendering.mk · s.afterBlock s.skipped) hreopened
  have hne := (hahead.perform acts).closeAll.body_ne (by omega)
  rw [← hrest _ hahead.stack, ← hrest _ rfl, ← hnested, ← hflat] at hne
  rw [page_group hv, page_group hv, List.append_nil, List.foldl_append, List.foldl_append,
    List.foldl_cons, List.foldl_cons, List.foldl_nil, List.foldl_nil, List.foldl_cons, hs,
    Document.group, draw_list hv, List.foldl_cons, draw_item, draw_item]
  exact hne

end

/-! ## All lists -/

/-- The list items among documents have a level of one or more. -/
def Leveled (members : List Document) : Prop :=
  ∀ d ∈ members, ∀ level isOrdered child, d.element = .wrap (.listItem level isOrdered) child →
    1 ≤ level

/-- Wherever in a document the members of a list are put in its place in another list, the page
stays the same without links to the editor, if the list blends in; and this is so for no other list,
as long as its items have levels. -/
theorem inner_lists_are_drawn_like_their_members_if_they_blend_in (inner : List Document) :
    (Blends inner → ∀ (v : View) (d d' : Document), v.editLinks = false → Spliced inner d d' →
      (page v d').body = (page v d).body) ∧
    (Leveled inner → (∀ (v : View) (d d' : Document), v.editLinks = false → Spliced inner d d' →
      (page v d').body = (page v d).body) → Blends inner) := by
  refine ⟨fun hinner v d d' hv h => congrArg Writer.body (hinner.page_spliced hv h),
    fun hlevels hsame => ?_⟩
  have hlast := last_of_same_body (v := ⟨.empty, .standard, false⟩) rfl inner
    (hsame _ _ _ rfl (.here [emptyParagraph false] [emptyParagraph true] none none))
  refine ⟨?_, hlast⟩
  rcases inner with _ | ⟨⟨e, span⟩, rest⟩
  · obtain ⟨d, hd, -⟩ := hlast
    cases hd
  · refine ⟨_, rest, rfl, ?_⟩
    by_contra he
    obtain ⟨level, isOrdered, child, rfl⟩ := item_of_isListItem (eq_true_of_ne_false he)
    have hlevel := hlevels _ List.mem_cons_self level isOrdered child rfl
    exact first_of_same_body (v := ⟨.empty, .standard, false⟩) rfl hlevel isOrdered child span rest
      (hsame _ _ _ rfl (.here [emptyItem level isOrdered] [] none none)).symm

/-- An item of a list with a word. -/
def wordItem (word : String) : Document :=
  Document.wrapped (.listItem 1 false) (Document.text word)

/-- A list of one item within another list is a list of its own. -/
theorem an_item_in_an_inner_list_stands_in_a_list_of_its_own :
    (page ⟨.empty, .standard, false⟩
        (Document.group [wordItem "a", Document.group [wordItem "b"]])).body =
      ["<ul>", "  <li>a</li>", "</ul>", "<ul>", "  <li>b</li>", "</ul>"] ∧
    (page ⟨.empty, .standard, false⟩ (Document.group [wordItem "a", wordItem "b"])).body =
      ["<ul>", "  <li>a</li>", "  <li>b</li>", "</ul>"] := by
  decide

end WikiHtml.Html
