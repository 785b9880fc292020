-- Documents that differ in their words only: in texts, paths, URLs of links, options, classes and
-- colours. Whatever the new words are, it is the same elements that stand at the same places.
import WikiHtml.Html.Page

namespace WikiHtml

/-! ## Other words -/

variable {f : String → String}

/-- Options with other words. -/
def Options.reword (f : String → String) (options : Options) : Options :=
  options.map fun option => (f option.1, f option.2)

/-- An element with other words. The name of a command and the tags written as they are stay. -/
def Wrapper.reword (f : String → String) : Wrapper → Wrapper
  | .page path => .page (path.map f)
  | .color name => .color (f name)
  | .style classes => .style (classes.map f)
  | .xmlTag space name options => .xmlTag space name (options.reword f)
  | .linkPage path anchor => .linkPage (path.map f) (anchor.map f)
  | .linkLocalFile path => .linkLocalFile (f path)
  | .linkExternal url => .linkExternal (f url)
  | w => w

/-- An element that holds none with other words. What has a say in which tags are written stays: the
line breaks of a text that is shown as it stands, the code of a code block, and the URL of an image,
which may not be shown. -/
def Leaf.reword (f : String → String) : Leaf → Leaf
  | .text words => .text (f words)
  | .anchor name => .anchor (f name)
  | .image url options => .image url (options.reword f)
  | .task state schedule description => .task state (schedule.map f) (description.map f)
  | l => l

namespace Document

mutual

/-- A document with other words. -/
def reword (f : String → String) : Document → Document
  | .node element span =>
    .node
      (match element with
      | .list members => .list (rewordMembers f members)
      | .wrap wrapper child => .wrap (wrapper.reword f) (rewordChild f child)
      | .table params rows => .table (params.map f) (rewordRows f rows)
      | .leaf l => .leaf (l.reword f))
      span

/-- The members of a list with other words. -/
def rewordMembers (f : String → String) : List Document → List Document
  | [] => []
  | document :: rest => reword f document :: rewordMembers f rest

/-- What an element holds with other words. -/
def rewordChild (f : String → String) : Option Document → Option Document
  | none => none
  | some document => some (reword f document)

/-- The rows of a table with other words. -/
def rewordRows (f : String → String) : List (Row Document) → List (Row Document)
  | [] => []
  | ⟨params, cells⟩ :: rest => ⟨params.map f, rewordCells f cells⟩ :: rewordRows f rest

/-- The cells of a row with other words. -/
def rewordCells (f : String → String) : List (Cell Document) → List (Cell Document)
  | [] => []
  | ⟨header, params, content⟩ :: rest =>
    ⟨header, params.map f, rewordChild f content⟩ :: rewordCells f rest

end

theorem span_reword (d : Document) : (d.reword f).span = d.span := by
  cases d
  rw [reword.eq_def]
  rfl

theorem isSome_rewordChild (child : Option Document) :
    (rewordChild f child).isSome = child.isSome := by
  cases child <;> simp [rewordChild]

theorem bind_span_rewordChild (child : Option Document) :
    (rewordChild f child).bind Document.span = child.bind Document.span := by
  cases child with
  | none => rw [rewordChild]
  | some d =>
    rw [rewordChild]
    exact span_reword d

/-! ## Kinds -/

/-- What the kind of an element decides about how it is written. -/
structure SameKind (e e' : Element Document) : Prop where
  inline : e'.isInline = e.isInline
  listItem : Html.Rendering.isListItem e' = Html.Rendering.isListItem e
  anchor : Html.Rendering.isAnchor e' = Html.Rendering.isAnchor e
  spacedBlock : Html.Rendering.isSpacedBlock e' = Html.Rendering.isSpacedBlock e
  headingLevel : Html.headingLevel? e' = Html.headingLevel? e

theorem sameKind_reword (d : Document) : SameKind d.element (d.reword f).element := by
  rcases d with ⟨members | ⟨w, child⟩ | ⟨params, rows⟩ | l, span⟩ <;> rw [reword.eq_def]
  · exact ⟨rfl, rfl, rfl, rfl, rfl⟩
  · cases w <;> exact ⟨rfl, rfl, rfl, rfl, rfl⟩
  · exact ⟨rfl, rfl, rfl, rfl, rfl⟩
  · cases l <;> exact ⟨rfl, rfl, rfl, rfl, rfl⟩

end Document

/-! ## Places -/

namespace Html

/-- A place in a document with other words. -/
def Place.reword (f : String → String) (place : Place) : Place where
  context := place.context.map (Option.map f)
  outermost := place.outermost.map f
  inList := place.inList.map fun inList =>
    ⟨Document.rewordMembers f inList.following, inList.span⟩

namespace Place

theorem top_reword (d : Document) : Place.top (d.reword f) = (Place.top d).reword f := by
  rcases d with ⟨members | ⟨w, child⟩ | ⟨params, rows⟩ | l, span⟩ <;> rw [Document.reword.eq_def]
  · rfl
  · cases w <;> rfl
  · rfl
  · rfl

theorem within_reword (place : Place) (d : Document) :
    (place.reword f).within (d.reword f).element = (place.within d.element).reword f := by
  rcases d with ⟨members | ⟨w, child⟩ | ⟨params, rows⟩ | l, span⟩ <;> rw [Document.reword.eq_def]
  · rfl
  · cases w <;> rfl
  · rfl
  · rfl

theorem join_context_reword (place : Place) :
    (place.reword f).context.join = place.context.join.map f := by
  rcases place with ⟨_ | context, outermost, inList⟩ <;> rfl

/-- A path leads somewhere wherever there is a page around it, whatever it says. -/
theorem isSome_absolutePath_reword (place : Place) (path path' : String) :
    ((place.reword f).absolutePath path').isSome = (place.absolutePath path).isSome := by
  rcases place with ⟨_ | context, outermost, inList⟩ <;> rfl

end Place

theorem find?_rewordMembers (level : Nat) (members : List Document) :
    ((Document.rewordMembers f members).find? (endsSection level)).map Document.span =
      (members.find? (endsSection level)).map Document.span := by
  induction members with
  | nil => rw [Document.rewordMembers]
  | cons d rest ih =>
    have hends : endsSection level (d.reword f) = endsSection level d := by
      unfold endsSection
      rw [(Document.sameKind_reword d).headingLevel]
    rw [Document.rewordMembers, List.find?_cons, List.find?_cons, hends]
    split
    · exact congrArg some (Document.span_reword d)
    · exact ih

/-- Where a section ends is told by the range of the heading that ends it. -/
theorem sectionEnd?_eq (inList : InList) (level : Nat) :
    inList.sectionEnd? level =
      ((inList.following.find? (endsSection level)).map Document.span).elim
        (inList.span.map (·.last)) (·.map (·.first)) := by
  unfold InList.sectionEnd?
  cases inList.following.find? (endsSection level) <;> rfl

/-- A section is the same with other words. -/
theorem section?_reword (place : Place) (level : Nat) (span : Option Span) : section?
    (place.reword f) level span = section? place level span := by
  rcases place with ⟨context, outermost, _ | ⟨following, listSpan⟩⟩
  · rfl
  · have hend : InList.sectionEnd? ⟨Document.rewordMembers f following, listSpan⟩ level =
        InList.sectionEnd? ⟨following, listSpan⟩ level := by
      rw [sectionEnd?_eq, sectionEnd?_eq, find?_rewordMembers]
    unfold section?
    simp only [Place.reword, Option.map_some, Option.bind_eq_bind, Option.bind_some, hend]

end Html

end WikiHtml
