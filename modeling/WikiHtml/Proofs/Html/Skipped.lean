-- What a rendering passes over. Only a placeholder is passed over, so a document without
-- placeholders is shown as a whole.
import WikiHtml.Html.Page
import WikiHtml.Proofs.Document.Parts
import WikiHtml.Proofs.Element.Kinds

namespace WikiHtml.Html

/-- A step of a rendering passes over nothing. -/
def SkipsNothing (step : Rendering → Rendering) : Prop :=
  ∀ s, (step s).skipped = s.skipped

section

variable {v : View} {place : Place} {span : Option Span} {child : Option Document}
  {content first second : Rendering → Rendering}

theorem SkipsNothing.comp (h : SkipsNothing first) (h' : SkipsNothing second) :
    SkipsNothing fun s => second (first s) :=
  fun s => (h' (first s)).trans (h s)

/-! ## Writing -/

theorem skipsNothing_write (f : Writer → Writer) : SkipsNothing (·.write f) :=
  fun _ => rfl

theorem skipsNothing_html (text : String) : SkipsNothing (·.html text) :=
  skipsNothing_write _

theorem SkipsNothing.enclosed (start : Writer → Writer) (h : SkipsNothing content) :
    SkipsNothing (·.enclosed start content) :=
  fun s => h (s.write start)

theorem SkipsNothing.tag (name attributes : String) (h : SkipsNothing content) :
    SkipsNothing (·.tag name attributes content) :=
  h.enclosed _

theorem SkipsNothing.div (cssClass : String) (h : SkipsNothing content) :
    SkipsNothing (·.div cssClass content) :=
  h.enclosed _

theorem skipsNothing_verticalSpace : SkipsNothing Rendering.verticalSpace :=
  fun _ => rfl

theorem skipsNothing_enter (e : Element Document) : SkipsNothing (Rendering.enter e) := by
  intro s
  unfold Rendering.enter Rendering.breakFor
  split <;> split <;> rfl

theorem skipsNothing_leave (e : Element Document) : SkipsNothing (Rendering.leave e) := by
  intro s
  unfold Rendering.leave Rendering.breakFor
  split <;> split <;> rfl

/-! ## Elements that hold one -/

theorem skipsNothing_editMark (v : View) (place : Place) (span : Option Span) (mark : EditMark) :
    SkipsNothing (editMark v place span mark) := by
  intro s
  unfold editMark
  split <;> rfl

theorem SkipsNothing.orLabel (h : SkipsNothing content) (label : String) :
    SkipsNothing (orLabel child content label) := by
  intro s
  unfold Html.orLabel
  split
  · exact h s
  · rfl

theorem SkipsNothing.commandLink (h : SkipsNothing content) (name : String) :
    SkipsNothing (commandLink v place child content name) := by
  intro s
  unfold Html.commandLink
  split
  · exact h.orLabel _ s
  · dsimp only
    split
    · exact (h.orLabel _).tag _ _ s
    · exact h.orLabel _ s

theorem SkipsNothing.fileLink (h : SkipsNothing content) (path : String) :
    SkipsNothing (fileLink place child content path) := by
  intro s
  unfold Html.fileLink
  split
  · rfl
  · exact (h.orLabel _).tag _ _ s

/-- An element that may hold one passes over nothing but what it holds does. -/
theorem SkipsNothing.wrapped (h : SkipsNothing content) (w : Wrapper) :
    SkipsNothing (wrapped v place span child content · w) := by
  intro s
  cases w with
  | heading level => exact ((skipsNothing_editMark v place _ _).comp h).tag _ _ s
  | paragraph centered indention spacing =>
    simp only [Html.wrapped]
    split
    · exact (skipsNothing_verticalSpace.comp (h.div _)) s
    · exact h.div _ s
  | listItem level isOrdered => exact ((skipsNothing_write _).comp (h.tag _ _)) s
  | linkPage path anchor => exact (h.orLabel _).tag _ _ s
  | linkWiki command => exact h.commandLink command s
  | linkLocalFile path => exact h.fileLink path s
  | linkExternal url => exact (h.orLabel _).tag _ _ s
  | page path => exact h s
  | xmlTag space name options => exact h s
  | _ => exact h.tag _ _ s

/-! ## Elements that hold none -/

theorem skipsNothing_task (state : TaskState) (schedule description : Option String) :
    SkipsNothing (task state schedule description) := by
  intro s
  cases schedule <;> cases description <;> rfl

/-- Only placeholders are passed over. -/
theorem skipsNothing_leaf {l : Leaf} (hi : l.isInclusion = false) (hp : l.isPlaceholder = false) :
    SkipsNothing (leaf v place span · l) := by
  intro s
  cases l with
  | image url options =>
    simp only [leaf]
    split <;> rfl
  | task state schedule description => exact skipsNothing_task state schedule description s
  | code language text =>
    exact ((skipsNothing_editMark v place span codeMark).comp (skipsNothing_html _)).div _ s
  | _ => first | rfl | simp [Leaf.isInclusion, Leaf.isPlaceholder] at hi hp

/-! ## Tables -/

theorem SkipsNothing.table (params : Option String) (h : SkipsNothing content) :
    SkipsNothing (table v place span params content) :=
  ((((skipsNothing_editMark v place span tableMark).comp (skipsNothing_write _)).comp h).comp
    (skipsNothing_write _)).div _

theorem SkipsNothing.row (params : Option String) (h : SkipsNothing content) :
    SkipsNothing (row params content) :=
  (skipsNothing_write _).comp ((h.comp (skipsNothing_write _)).tag _ _)

theorem SkipsNothing.cell (header : Bool) (params : Option String) (h : SkipsNothing content) :
    SkipsNothing (cell v place header params child content) := by
  refine (skipsNothing_write _).comp (SkipsNothing.tag _ _ fun s => ?_)
  refine (h _).trans ?_
  dsimp only
  split
  · exact skipsNothing_editMark _ _ _ _ _
  · rfl

end

/-! ## Documents -/

section

variable {v : View}

/-- A document is shown as a whole, wherever it stands. -/
def Shows (v : View) (d : Document) : Prop :=
  ∀ place, SkipsNothing (draw v place · d)

theorem skipsNothing_members {members : List Document} (h : ∀ d ∈ members, Shows v d)
    (place : Place) (span : Option Span) : SkipsNothing (drawMembers v place span · members) := by
  intro s
  induction members generalizing s with
  | nil => rfl
  | cons d rest ih =>
    have hrest := ih fun c hc => h c (List.mem_cons_of_mem d hc)
    simp only [drawMembers]
    exact (hrest _).trans (h d (by simp) _ s)

theorem skipsNothing_child {child : Option Document} (h : ∀ d ∈ child.toList, Shows v d)
    (place : Place) : SkipsNothing (drawChild v place · child) := by
  intro s
  cases child with
  | none => rfl
  | some d => exact h d (by simp) place s

theorem skipsNothing_cells {cells : List (Cell Document)}
    (h : ∀ d ∈ Element.rowContents cells, Shows v d) (place : Place) :
    SkipsNothing (drawCells v place · cells) := by
  intro s
  induction cells generalizing s with
  | nil => rfl
  | cons cell rest ih =>
    obtain ⟨header, params, content⟩ := cell
    rw [Element.rowContents_cons, List.forall_mem_append] at h
    obtain ⟨hcontent, hrest⟩ := h
    simp only [drawCells]
    exact (ih hrest _).trans ((skipsNothing_child hcontent place).cell header params s)

theorem skipsNothing_rows {rows : List (Row Document)}
    (h : ∀ d ∈ Element.contents rows, Shows v d) (place : Place) :
    SkipsNothing (drawRows v place · rows) := by
  intro s
  induction rows generalizing s with
  | nil => rfl
  | cons row rest ih =>
    obtain ⟨params, cells⟩ := row
    rw [Element.contents_cons] at h
    have hcells := skipsNothing_cells (fun d hd => h d (List.mem_append_left _ hd)) place
    simp only [drawRows]
    exact (ih (fun d hd => h d (List.mem_append_right _ hd)) _).trans (hcells.row params s)

/-- Where no part of a document is a placeholder, nothing is passed over. -/
theorem shows_of_parts {d : Document} (h : ∀ c, d.Part c →
    c.element.isLeaf Leaf.isInclusion = false ∧ c.element.isLeaf Leaf.isPlaceholder = false) :
    Shows v d := by
  induction d using Document.induct with
  | node e span ih =>
    have hheld : ∀ d ∈ e.children, Shows v d := fun d hd =>
      ih d hd fun c hc => h c (.head hd hc)
    obtain ⟨hi, hp⟩ := h _ .refl
    intro place s
    have hframe : ∀ step, SkipsNothing step →
        (Rendering.leave e (step (Rendering.enter e s))).skipped = s.skipped := fun step hstep =>
      (((skipsNothing_enter e).comp hstep).comp (skipsNothing_leave e)) s
    cases e with
    | list members =>
      simp only [draw]
      exact hframe _ (skipsNothing_members hheld _ _)
    | wrap w child =>
      simp only [draw]
      exact hframe _ ((skipsNothing_child hheld _).wrapped w)
    | table params rows =>
      simp only [draw]
      exact hframe _ ((skipsNothing_rows hheld _).table params)
    | leaf l =>
      simp only [draw]
      exact hframe _ (skipsNothing_leaf hi hp)

end

end WikiHtml.Html
