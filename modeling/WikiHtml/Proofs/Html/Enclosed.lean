-- What stands in a tag. The content of an element leaves the tag around it open, whatever the
-- content is, unless the tag is that of a list and the content is no item that continues it: then
-- the list ends before the content starts.
import WikiHtml.Proofs.Html.Drawn

namespace WikiHtml.Html

/-! ## Content -/

/-- Where given lists are on top of the open tags, content goes by the same acts, whatever other
tags are open; and these acts close no tags but their own. -/
def KeepsOpen (run : List ListKind) (content : Rendering → Rendering) : Prop :=
  ∀ afterBlock, ∃ acts own, own? [] acts = some own ∧
    ∀ t, listRun t.writer.stack = run → t.afterBlock = afterBlock →
      (content t).writer = t.writer.perform acts

section

variable {ok : EditRange → Prop} {bare : List Piece} {content : Settings → Rendering → Rendering}

/-- Under a tag that is no list, what goes by a script keeps the tags open. -/
theorem Scripted.keepsOpen (h : Scripted ok bare content) (settings : Settings) :
    KeepsOpen [] (content settings) := by
  intro afterBlock
  obtain ⟨script, own, hown, -, hplay⟩ := h [] afterBlock
  refine ⟨script.acts.map (Act.map (Piece.fill settings)), own, ?_, fun t ht hafter => ?_⟩
  · rw [own?_map]
    exact hown
  · rw [hplay settings t _ ht rfl hafter]
    rfl

theorem keepsOpen_draw (v : View) (place : Place) (d : Document) :
    KeepsOpen [] (draw v place · d) :=
  (scripted_draw v place d).keepsOpen v.settings

end

/-! ## Content of lists -/

/-- Whether the content of a tag leaves the tag open: not if it is a list, unless the content is an
item that is a member of that list, or of a list within. -/
def continues (name : String) (content : Element Document) : Bool :=
  match ListKind.ofTag? name, content with
  | none, _ => true
  | some kind, .wrap (.listItem level isOrdered) _ =>
    decide (2 ≤ level) || (level == 1 && ListKind.ofItem isOrdered == kind)
  | some _, _ => false

/-- No list of a run is surplus for an item that continues the run of one. -/
theorem surplus_of_continues {kind kind' : ListKind} {level : Nat}
    (h : 2 ≤ level ∨ level = 1 ∧ kind' = kind) : Writer.surplus [kind] level kind' = 0 := by
  unfold Writer.surplus
  rcases h with h | ⟨rfl, rfl⟩
  · obtain ⟨n, rfl⟩ := Nat.exists_eq_add_of_le' h
    simp
  · simp

/-- One list is surplus for any other item. -/
theorem surplus_of_ends {kind kind' : ListKind} {level : Nat}
    (h : ¬(2 ≤ level ∨ level = 1 ∧ kind' = kind)) : Writer.surplus [kind] level kind' = 1 := by
  unfold Writer.surplus
  have hlevel : level = 0 ∨ level = 1 := by omega
  rcases hlevel with rfl | rfl
  · simp
  · have hkind : kind ≠ kind' := fun he => h (.inr ⟨rfl, he.symm⟩)
    simp [hkind]

section

variable {v : View} {place : Place} {kind : ListKind} {t : Rendering}

/-- An item of a list that is surplus for nothing opens the lists that it needs, and leaves those
open that there are. -/
theorem keepsOpen_item {level : Nat} {isOrdered : Bool} {child : Option Document}
    {span : Option Span} (h : 2 ≤ level ∨ level = 1 ∧ ListKind.ofItem isOrdered = kind) :
    KeepsOpen [kind]
      (draw v place · (.node (.wrap (.listItem level isOrdered) child) span)) := by
  intro afterBlock
  obtain ⟨bare, hbody⟩ := blind_itemBody v place level isOrdered child
  obtain ⟨script, hown, -, hplay⟩ := hbody afterBlock
  have hfilled : own? [] (script.acts.map (Act.map (Piece.fill v.settings))) = some [] := by
    rw [own?_map]
    exact hown
  have hopenings := own?_listOpenings (α := String) (.ofItem isOrdered) (level - 1) []
  refine ⟨.startLine :: (listOpenings (.ofItem isOrdered) (level - 1) ++
      script.acts.map (Act.map (Piece.fill v.settings))), _,
    own?_cons rfl (own?_append hopenings (own?_below hfilled _)), fun t ht hafter => ?_⟩
  have hnested : t.startLine.writer.nestLists level (.ofItem isOrdered) =
      t.startLine.writer.openLists (.ofItem isOrdered) (level - 1) :=
    Writer.nestLists_of_surplus (w := t.startLine.writer) ht (surplus_of_continues h)
  have hdrawn := hplay v.settings (t.startLine.write (·.nestLists level (.ofItem isOrdered))) hafter
  calc (draw v place t (.node (.wrap (.listItem level isOrdered) child) span)).writer
      = (t.startLine.writer.nestLists level (.ofItem isOrdered)).perform
          (script.acts.map (Act.map (Piece.fill v.settings))) := by
        rw [draw_item]
        exact congrArg Rendering.writer hdrawn
    _ = _ := by
        rw [hnested, ← Writer.perform_listOpenings, ← Writer.perform_append]
        rfl

/-- When the innermost list is closed, those around it are on top. -/
theorem listRun_closeTag {w : Writer} {run : List ListKind} (h : listRun w.stack = kind :: run) :
    listRun w.closeTag.stack = run := by
  rw [Writer.stack_closeTag]
  rcases hstack : w.stack with _ | ⟨name, outer⟩
  · rw [hstack] at h
    cases h
  · rw [hstack, listRun] at h
    split at h
    · exact (List.cons.inj h).2
    · cases h

/-- Lists end before an element that is no item of a list. -/
theorem enter_ends {e : Element Document} (he : Rendering.isListItem e = false)
    (ht : listRun t.writer.stack = [kind]) :
    Rendering.enter e t = Rendering.enter e (t.write (·.closeTag.startLine)) := by
  have hrest : listRun t.writer.closeTag.startLine.stack = [] :=
    listRun_closeTag (w := t.writer) ht
  have hfinish : t.write Writer.finishLists =
      (t.write (·.closeTag.startLine)).write Writer.finishLists := by
    unfold Rendering.write Writer.finishLists
    dsimp only
    rw [ht, hrest]
    rfl
  unfold Rendering.enter
  rw [he, hfinish]
  rfl

/-- A list ends before an item that it is surplus for. -/
theorem nestLists_ends {level : Nat} {kind' : ListKind} {w : Writer}
    (h : ¬(2 ≤ level ∨ level = 1 ∧ kind' = kind)) (hw : listRun w.stack = [kind]) :
    w.nestLists level kind' = w.closeTag.startLine.nestLists level kind' := by
  have hrest : listRun w.closeTag.startLine.stack = [] := listRun_closeTag hw
  have hempty : Writer.surplus [] level kind' = 0 := by simp [Writer.surplus]
  unfold Writer.nestLists
  dsimp only
  rw [hw, hrest, surplus_of_ends h, hempty]
  rfl

/-- Content that does not continue a list is drawn as if the list had ended before it. -/
theorem draw_ends {name : String} {c : Document} (hname : ListKind.ofTag? name = some kind)
    (hc : continues name c.element = false) (ht : listRun t.writer.stack = [kind]) :
    ∃ u, (u = t ∨ u = t.startLine) ∧
      draw v place t c = draw v place (u.write (·.closeTag.startLine)) c := by
  obtain ⟨e, span⟩ := c
  by_cases he : Rendering.isListItem e = false
  · exact ⟨t, .inl rfl, draw_of_enter v place span (enter_ends he ht)⟩
  · obtain ⟨level, isOrdered, child, rfl⟩ := item_of_isListItem (eq_true_of_ne_false he)
    have hends : ¬(2 ≤ level ∨ level = 1 ∧ ListKind.ofItem isOrdered = kind) := by
      simpa [continues, Document.element, hname] using hc
    refine ⟨t.startLine, .inr rfl, ?_⟩
    have hnested := nestLists_ends hends (w := t.startLine.writer) ht
    rw [draw_item, draw_item]
    exact congrArg (fun w => itemBody v place level isOrdered child ⟨w, t.afterBlock, t.skipped⟩)
      hnested

end

/-! ## Tags -/

/-- The name of the tag that an element writes around what it holds, where it writes one. -/
def tagAround? (place : Place) : Wrapper → Option String
  | .page _ | .xmlTag _ _ _ => none
  | .heading level => some (headingTag level)
  | .paragraph _ _ _ => some "div"
  | .listItem _ _ => some "li"
  | .bold => some "b"
  | .italic => some "i"
  | .underlined => some "u"
  | .strikethrough => some "strike"
  | .monospace => some "tt"
  | .small | .style _ => some "span"
  | .color _ => some "font"
  | .htmlTag name _ => some name
  | .linkPage _ _ | .linkExternal _ => some "a"
  | .linkWiki name => ((command? place.outermost name).bind (·.url)).map fun _ => "a"
  | .linkLocalFile path => (place.absolutePath path).map fun _ => "a"

/-- A tag has been opened inside of others, with attributes, and after it no more than acts with
open tags of their own. -/
def Begun (name : String) (own outer : List String) (t : Rendering) : Prop :=
  ∃ (w : Writer) (attributes : String) (acts : List (Act String)), w.stack = outer ∧
    own? [] acts = some own ∧ t.writer = (w.openTag name attributes).perform acts

/-- Content is written after the start of a tag, with the given lists on top of the open tags, and
the tags are then closed up to those around that tag. -/
def WritesIn (name : String) (own : List String) (run : List ListKind)
    (content : Rendering → Rendering) (result : Rendering) : Prop :=
  ∃ t outer, Begun name own outer t ∧ listRun t.writer.stack = run ∧
    result = (content t).write (·.closeTo outer.length)

section

variable {v : View} {place : Place} {span : Option Span} {child : Option Document}
  {content : Rendering → Rendering} {name attributes : String} {s : Rendering}

theorem begun_openTag (name attributes : String) (s : Rendering) :
    Begun name [] s.writer.stack (s.write (·.openTag name attributes)) :=
  ⟨s.writer, attributes, [], rfl, rfl, rfl⟩

theorem listRun_name (name : String) {outer : List String}
    (h : ListKind.ofTag? name ≠ none → listRun outer = []) :
    listRun (name :: outer) = (ListKind.ofTag? name).toList := by
  rw [listRun]
  split
  · rename_i kind hkind
    rw [h (by rw [hkind]; exact Option.some_ne_none kind), hkind]
    rfl
  · rename_i hnone
    rw [hnone]
    rfl

theorem writesIn_tag (h : ListKind.ofTag? name ≠ none → listRun s.writer.stack = [])
    (attributes : String) (content : Rendering → Rendering) :
    WritesIn name [] (ListKind.ofTag? name).toList content (s.tag name attributes content) :=
  ⟨s.write (·.openTag name attributes), s.writer.stack, begun_openTag name attributes s,
    (congrArg listRun (Writer.stack_openTag _ _ _)).trans (listRun_name name h), rfl⟩

/-- In a tag that is no list no lists are on top. -/
theorem writesIn_plainTag (h : ListKind.ofTag? name = none) (attributes : String)
    (content : Rendering → Rendering) (s : Rendering) :
    WritesIn name [] (ListKind.ofTag? name).toList content (s.tag name attributes content) :=
  writesIn_tag (fun hne => absurd h hne) attributes content

/-- A link to the editor is written after the start of a tag, too. -/
theorem Begun.editMark {own outer : List String} {t : Rendering} (h : Begun name own outer t)
    (v : View) (place : Place) (span : Option Span) (mark : EditMark) :
    Begun name own outer (editMark v place span mark t) := by
  obtain ⟨w, attributes, acts, hw, hown, ht⟩ := h
  unfold Html.editMark
  split
  · rename_i link _
    refine ⟨w, attributes, acts ++ [.text link], hw, own?_append hown rfl, ?_⟩
    rw [Writer.perform_append, ← ht]
    rfl
  · exact ⟨w, attributes, acts, hw, hown, ht⟩

theorem Begun.openTag {own outer : List String} {t : Rendering} (h : Begun name own outer t)
    (inner attributes : String) :
    Begun name (inner :: own) outer (t.write (·.openTag inner attributes)) := by
  obtain ⟨w, attributes', acts, hw, hown, ht⟩ := h
  refine ⟨w, attributes', acts ++ [.openTag inner attributes], hw, own?_append hown rfl, ?_⟩
  rw [Writer.perform_append, ← ht]
  rfl

theorem stack_editMark (v : View) (place : Place) (span : Option Span) (mark : EditMark)
    (t : Rendering) : (editMark v place span mark t).writer.stack = t.writer.stack := by
  unfold editMark
  split
  · exact Writer.stack_text _ _
  · rfl

theorem WritesIn.editMark {own : List String} {run : List ListKind} {result : Rendering}
    {mark : EditMark}
    (h : WritesIn name own run (fun s => content (editMark v place span mark s)) result) :
    WritesIn name own run content result := by
  obtain ⟨t, outer, ht, hrun, hresult⟩ := h
  exact ⟨_, outer, ht.editMark v place span mark, (stack_editMark _ _ _ _ _).symm ▸ hrun, hresult⟩

/-- An element that writes a tag writes what it holds in that tag. -/
theorem writesIn_wrapped (v : View) (place : Place) (span : Option Span)
    (content : Rendering → Rendering) {c : Document} {w : Wrapper}
    (hlists : Rendering.isListItem (.wrap w (some c) : Element Document) = false →
      listRun s.writer.stack = [])
    (hname : tagAround? place w = some name) :
    WritesIn name [] (ListKind.ofTag? name).toList content
      (wrapped v place span (some c) content s w) := by
  cases w with
  | page path => cases hname
  | xmlTag space tag options => cases hname
  | heading level =>
    cases hname
    exact (writesIn_plainTag (ofTag?_headingTag level) (headingAttr (some c)) _ s).editMark
  | htmlTag tag attributes =>
    cases hname
    exact writesIn_tag (fun _ => hlists rfl) (attributes.getD "") content
  | linkWiki command =>
    obtain ⟨url, hurl, rfl⟩ := Option.map_eq_some_iff.mp hname
    obtain ⟨known, hknown, hurl⟩ := Option.bind_eq_some_iff.mp hurl
    simp only [wrapped, commandLink, hknown, hurl]
    exact writesIn_plainTag (by decide) _ content s
  | linkLocalFile path =>
    obtain ⟨target, htarget, rfl⟩ := Option.map_eq_some_iff.mp hname
    simp only [wrapped, fileLink, htarget]
    exact writesIn_plainTag (by decide) _ content s
  | _ =>
    cases hname
    exact writesIn_plainTag (by decide) _ content _

/-- A cell writes what it holds in its tag, perhaps in a block of its own there. -/
theorem writesIn_cell (v : View) (place : Place) (header : Bool) (params : Option String)
    (child : Option Document) (content : Rendering → Rendering) (s : Rendering) :
    ∃ own, WritesIn (if header then "th" else "td") own [] content
      (cell v place header params child content s) := by
  have htag : ListKind.ofTag? (if header then "th" else "td") = none := by
    cases header <;> decide
  have hbegun := begun_openTag (if header then "th" else "td") (paramsAttr params) s.startLine
  have hrun : listRun (s.startLine.write
      (·.openTag (if header then "th" else "td") (paramsAttr params))).writer.stack = [] :=
    (congrArg listRun (Writer.stack_openTag _ _ _)).trans (listRun_cons htag _)
  -- With a link to the editor, the content starts in the block after it.
  by_cases hlink : v.editLinks && (child.bind Document.span).isSome
  · have hblock := (hbegun.openTag "div" (" ".intercalate [attr "class" "tablecell"])).editMark
      v place (child.bind Document.span) cellMark
    obtain ⟨w, attributes, acts, hw, hown, ht⟩ := hblock
    refine ⟨["div"], { editMark v place (child.bind Document.span) cellMark
        ((s.startLine.write (·.openTag _ (paramsAttr params))).write
          (·.openDiv (some "tablecell") none)) with afterBlock := false },
      s.startLine.writer.stack, ⟨w, attributes, acts, hw, hown, ht⟩, ?_, ?_⟩
    · refine (congrArg listRun (stack_editMark v place _ cellMark _)).trans ?_
      exact (congrArg listRun (Writer.stack_openTag _ "div" _)).trans (listRun_cons (by decide) _)
    · simp only [cell, if_pos hlink]
      rfl
  · obtain ⟨w, attributes, acts, hw, hown, ht⟩ := hbegun
    refine ⟨[], { s.startLine.write (·.openTag _ (paramsAttr params)) with afterBlock := false },
      s.startLine.writer.stack, ⟨w, attributes, acts, hw, hown, ht⟩, hrun, ?_⟩
    simp only [cell, if_neg hlink]
    rfl

/-- No lists are on top when an element that is no item of a list has been entered. -/
theorem listRun_enter {e : Element Document} (he : Rendering.isListItem e = false) :
    listRun (Rendering.enter e s).writer.stack = [] := by
  have hfinished := s.writer.listRun_finishLists
  unfold Rendering.enter Rendering.breakFor
  rw [he]
  split <;> exact hfinished

end

/-! ## Elements -/

/-- What leaves the tags open that are open leaves them open below its own. -/
theorem KeepsOpen.stack {run : List ListKind} {content : Rendering → Rendering} {t : Rendering}
    (h : KeepsOpen run content) (ht : listRun t.writer.stack = run) :
    ∃ left, (content t).writer.stack = left ++ t.writer.stack := by
  obtain ⟨acts, own, hown, hacts⟩ := h t.afterBlock
  exact ⟨own, by rw [hacts t ht rfl]; exact Writer.stack_perform rfl hown⟩

/-- What continues a list is an item. -/
theorem item_of_continues {name : String} {kind : ListKind} {e : Element Document}
    (hname : ListKind.ofTag? name = some kind) (h : continues name e = true) :
    ∃ level isOrdered child, e = .wrap (.listItem level isOrdered) child ∧
      (2 ≤ level ∨ level = 1 ∧ ListKind.ofItem isOrdered = kind) := by
  rcases e with members | ⟨w, child⟩ | ⟨params, rows⟩ | l
  · simp [continues, hname] at h
  · cases w with
    | listItem level isOrdered =>
      exact ⟨level, isOrdered, child, rfl, by simpa [continues, hname] using h⟩
    | _ => simp [continues, hname] at h
  · simp [continues, hname] at h
  · simp [continues, hname] at h

theorem keepsOpen_continued (v : View) (place : Place) {name : String} {c : Document}
    (h : continues name c.element = true) :
    KeepsOpen (ListKind.ofTag? name).toList (draw v place · c) := by
  rcases hname : ListKind.ofTag? name with _ | kind
  · exact keepsOpen_draw v place c
  · obtain ⟨e, span⟩ := c
    obtain ⟨level, isOrdered, child, rfl, hlevel⟩ := item_of_continues hname h
    exact keepsOpen_item hlevel

/-- An element that writes a tag writes what it holds between the start and the end of that tag. The
content leaves the tag open, and all tags around it, unless the tag is that of a list and the
content does not continue the list; then the list ends, and the content is written after its end.
What a cell of a table holds is always written in the tag of the cell. -/
theorem content_stands_in_its_tag_unless_it_ends_a_list (v : View) (place : Place)
    (span : Option Span) (c : Document) :
    (∀ w name, tagAround? place w = some name →
      let content := (draw v (place.within (.wrap w (some c))) · c)
      let run := (ListKind.ofTag? name).toList
      (∀ s, ∃ result, WritesIn name [] run content result ∧
        draw v place s (.node (.wrap w (some c)) span) =
          Rendering.leave (.wrap w (some c) : Element Document) result) ∧
      (continues name c.element = true → KeepsOpen run content ∧
        ∀ t, listRun t.writer.stack = run →
          ∃ left, (content t).writer.stack = left ++ t.writer.stack) ∧
      (continues name c.element = false → ∀ t, listRun t.writer.stack = run →
        ∃ u, (u = t ∨ u = t.startLine) ∧ content t = content (u.write (·.closeTag.startLine)))) ∧
    (∀ header params rest s, ∃ own result,
      WritesIn (if header then "th" else "td") own [] (draw v place · c) result ∧
        drawCells v place s (⟨header, params, some c⟩ :: rest) = drawCells v place result rest) ∧
    KeepsOpen [] (draw v place · c) := by
  refine ⟨fun w name hname => ⟨fun s => ?_, fun hc => ?_, fun hc t ht => ?_⟩,
    fun header params rest s => ?_, keepsOpen_draw v place c⟩
  · have hwritten := writesIn_wrapped v place span (draw v (place.within (.wrap w (some c))) · c)
      (s := Rendering.enter (.wrap w (some c) : Element Document) s) listRun_enter hname
    refine ⟨_, hwritten, ?_⟩
    simp only [draw, drawChild]
  · have hkeeps := keepsOpen_continued v (place.within (.wrap w (some c))) hc
    exact ⟨hkeeps, fun t ht => hkeeps.stack ht⟩
  · rcases hkind : ListKind.ofTag? name with _ | kind
    · simp [continues, hkind] at hc
    · exact draw_ends hkind hc (by rw [ht, hkind]; rfl)
  · obtain ⟨own, hwritten⟩ := writesIn_cell v place header params (some c) (draw v place · c) s
    refine ⟨own, _, hwritten, ?_⟩
    simp only [drawCells, drawChild]

/-- A list written as a tag around a word. -/
def listAround (word : String) : Document :=
  .node (.wrap (.htmlTag "ul" none) (some (.node (.leaf (.text word)) none))) none

/-- A word in a list written as a tag stands after the list. -/
theorem a_word_stands_after_its_list :
    (page ⟨.empty, .standard, true⟩ (listAround "x")).body = ["<ul></ul>", "x"] := by
  decide

end WikiHtml.Html
