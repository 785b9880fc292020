-- Writing as a sequence of acts. The acts alone tell which tags they close: those that were opened
-- by the acts before, which are their own, or others that were open already.
import WikiHtml.Proofs.Html.Written

namespace WikiHtml.Html

/-- What is done to a writer, with texts of some type. -/
inductive Act (α : Type) where
  | text (s : α)
  | startLine
  | openTag (name attributes : String)
  | closeTag

section

variable {α β : Type}

/-- The act with another text. -/
def Act.map (f : α → β) : Act α → Act β
  | .text s => .text (f s)
  | .startLine => .startLine
  | .openTag name attributes => .openTag name attributes
  | .closeTag => .closeTag

/-! ## Own tags -/

/-- The own open tags after an act, the innermost first. There are none to tell if the act closes a
tag that is not one of them. -/
def Act.own? (own : List String) : Act α → Option (List String)
  | .openTag name _ => some (name :: own)
  | .closeTag => match own with
    | [] => none
    | _ :: outer => some outer
  | _ => some own

/-- The own open tags after acts, if these close no others. -/
def own? (own : List String) (acts : List (Act α)) : Option (List String) :=
  acts.foldlM Act.own? own

variable {own own' own'' outer : List String} {acts acts' : List (Act α)}

theorem own?_append (h : own? own acts = some own') (h' : own? own' acts' = some own'') :
    own? own (acts ++ acts') = some own'' := by
  unfold own? at *
  rw [List.foldlM_append, h]
  exact h'

theorem own?_cons {act : Act α} (h : act.own? own = some own') (h' : own? own' acts = some own'') :
    own? own (act :: acts) = some own'' := by
  unfold own? at *
  rw [List.foldlM_cons, h]
  exact h'

theorem own?_map (f : α → β) (own : List String) (acts : List (Act α)) :
    own? own (acts.map (Act.map f)) = own? own acts := by
  unfold own?
  rw [List.foldlM_map]
  congr 1
  funext own act
  cases act <;> rfl

/-- Acts that close only own tags do so with further tags below. -/
theorem Act.own?_below {act : Act α} (h : act.own? own = some own') (outer : List String) :
    act.own? (own ++ outer) = some (own' ++ outer) := by
  cases act with
  | closeTag =>
    rcases own with _ | ⟨name, rest⟩
    · cases h
    · cases h
      rfl
  | _ =>
    cases h
    rfl

theorem own?_below (h : own? own acts = some own') (outer : List String) :
    own? (own ++ outer) acts = some (own' ++ outer) := by
  induction acts generalizing own with
  | nil =>
    cases h
    rfl
  | cons act rest ih =>
    unfold own? at h
    rw [List.foldlM_cons] at h
    rcases hact : act.own? own with _ | next
    · rw [hact] at h
      cases h
    · rw [hact] at h
      exact own?_cons (act.own?_below hact outer) (ih h)

theorem own?_closeTags (own outer : List String) :
    own? (own ++ outer) (List.replicate own.length (.closeTag : Act α)) = some outer := by
  induction own with
  | nil => rfl
  | cons name rest ih => exact own?_cons rfl ih

end

/-! ## Writers -/

namespace Writer

/-- A writer after an act. -/
def act (w : Writer) : Act String → Writer
  | .text s => w.text s
  | .startLine => w.startLine
  | .openTag name attributes => w.openTag name attributes
  | .closeTag => w.closeTag

/-- A writer after acts, in their order. -/
def perform (w : Writer) (acts : List (Act String)) : Writer :=
  acts.foldl act w

variable {w : Writer} {acts : List (Act String)} {own own' outer : List String}

theorem perform_append (w : Writer) (acts acts' : List (Act String)) :
    w.perform (acts ++ acts') = (w.perform acts).perform acts' :=
  List.foldl_append

theorem stack_act {act : Act String} (hstack : w.stack = own ++ outer)
    (h : act.own? own = some own') : (w.act act).stack = own' ++ outer := by
  cases act with
  | text s =>
    cases h
    exact (stack_text w s).trans hstack
  | startLine =>
    cases h
    exact hstack
  | openTag name attributes =>
    cases h
    change name :: (w.text (startTag name attributes)).stack = _
    rw [stack_text, hstack, List.cons_append]
  | closeTag =>
    rcases own with _ | ⟨name, rest⟩
    · cases h
    · cases h
      exact (stack_closeTag w).trans (congrArg List.tail hstack)

/-- Below its own tags a sequence of acts leaves the open tags as they were. -/
theorem stack_perform (hstack : w.stack = own ++ outer) (h : own? own acts = some own') :
    (w.perform acts).stack = own' ++ outer := by
  induction acts generalizing w own with
  | nil =>
    cases h
    exact hstack
  | cons act rest ih =>
    unfold own? at h
    rw [List.foldlM_cons] at h
    rcases hact : act.own? own with _ | next
    · rw [hact] at h
      cases h
    · rw [hact] at h
      exact ih (stack_act hstack hact) h

theorem perform_closeTags (w : Writer) (n : Nat) :
    w.perform (List.replicate n .closeTag) = w.closeTags n := by
  induction n generalizing w with
  | zero => rfl
  | succ n ih => exact ih w.closeTag

end Writer

/-! ## Lists -/

section

variable {α β : Type}

/-- The acts that close so many lists. -/
def listClosings (n : Nat) : List (Act α) :=
  (List.replicate n [.closeTag, .startLine]).flatten

/-- The acts that open so many lists. -/
def listOpenings (kind : ListKind) (n : Nat) : List (Act α) :=
  (List.replicate n [.openTag kind.tag "", .startLine]).flatten

theorem listClosings_succ (n : Nat) :
    listClosings (n + 1) = (.closeTag :: .startLine :: listClosings n : List (Act α)) := by
  rw [listClosings, List.replicate_succ, List.flatten_cons]
  rfl

theorem listOpenings_succ (kind : ListKind) (n : Nat) : listOpenings kind (n + 1) =
    (.openTag kind.tag "" :: .startLine :: listOpenings kind n : List (Act α)) := by
  rw [listOpenings, List.replicate_succ, List.flatten_cons]
  rfl

theorem map_listClosings (f : α → β) (n : Nat) :
    (listClosings n).map (Act.map f) = listClosings n := by
  rw [listClosings, List.map_flatten, List.map_replicate]
  rfl

theorem map_listOpenings (f : α → β) (kind : ListKind) (n : Nat) :
    (listOpenings kind n).map (Act.map f) = listOpenings kind n := by
  rw [listOpenings, List.map_flatten, List.map_replicate]
  rfl

theorem own?_listClosings (own outer : List String) :
    own? (own ++ outer) (listClosings own.length : List (Act α)) = some outer := by
  induction own with
  | nil => rfl
  | cons name rest ih =>
    rw [List.length_cons, listClosings_succ]
    exact own?_cons rfl (own?_cons rfl ih)

theorem own?_listOpenings (kind : ListKind) (n : Nat) (own : List String) :
    own? own (listOpenings kind n : List (Act α)) = some (List.replicate n kind.tag ++ own) := by
  induction n generalizing own with
  | zero => rfl
  | succ n ih =>
    have hreplicate : List.replicate n kind.tag ++ kind.tag :: own =
        List.replicate (n + 1) kind.tag ++ own := by
      rw [List.replicate_succ', List.append_assoc, List.singleton_append]
    rw [← hreplicate, listOpenings_succ]
    exact own?_cons rfl (own?_cons rfl (ih (kind.tag :: own)))

theorem Writer.perform_listClosings (w : Writer) (n : Nat) :
    w.perform (listClosings n) = w.closeLists n := by
  induction n generalizing w with
  | zero => rfl
  | succ n ih =>
    rw [listClosings_succ]
    exact ih w.closeTag.startLine

theorem Writer.perform_listOpenings (w : Writer) (kind : ListKind) (n : Nat) :
    w.perform (listOpenings kind n) = w.openLists kind n := by
  induction n generalizing w with
  | zero => rfl
  | succ n ih =>
    rw [listOpenings_succ]
    exact ih (w.openTag kind.tag "").startLine

/-- The lists on top are among the tags on top, if below these no list is open. -/
theorem listRun_append (own : List String) {outer : List String} (h : listRun outer = []) :
    listRun (own ++ outer) = listRun own := by
  induction own with
  | nil => exact h
  | cons name rest ih =>
    rw [List.cons_append, listRun, listRun]
    split
    · exact congrArg (_ :: ·) ih
    · rfl

theorem listRun_cons {name : String} (h : ListKind.ofTag? name = none) (outer : List String) :
    listRun (name :: outer) = [] := by
  rw [listRun, h]

/-- When lists have ended, no list is on top. -/
theorem listRun_drop (tags : List String) : listRun (tags.drop (listRun tags).length) = [] := by
  induction tags with
  | nil => rfl
  | cons name outer ih =>
    rcases hname : ListKind.ofTag? name with _ | kind
    · have hrun := listRun_cons hname outer
      rw [hrun]
      exact hrun
    · have hrun : listRun (name :: outer) = kind :: listRun outer := by rw [listRun, hname]
      rw [hrun]
      exact ih

theorem Writer.stack_closeLists (w : Writer) (n : Nat) :
    (w.closeLists n).stack = w.stack.drop n := by
  induction n generalizing w with
  | zero => rfl
  | succ n ih =>
    rw [closeLists, ih, ← List.drop_tail, ← stack_closeTag]
    rfl

theorem Writer.listRun_finishLists (w : Writer) : listRun w.finishLists.stack = [] := by
  unfold finishLists
  rw [stack_closeLists]
  exact listRun_drop w.stack

theorem Writer.finishLists_of_listRun {w : Writer} (h : listRun w.stack = []) :
    w.finishLists = w := by
  unfold finishLists
  rw [h]
  rfl

theorem Writer.stack_openLists (w : Writer) (kind : ListKind) (n : Nat) :
    (w.openLists kind n).stack = List.replicate n kind.tag ++ w.stack := by
  have hown := own?_listOpenings (α := String) kind n []
  rw [List.append_nil] at hown
  rw [← perform_listOpenings]
  exact stack_perform rfl hown

/-- Where no list is surplus, lists are only opened. -/
theorem Writer.nestLists_of_surplus {w : Writer} {run : List ListKind} {level : Nat}
    {kind : ListKind} (hrun : listRun w.stack = run) (h : surplus run level kind = 0) :
    w.nestLists level kind = w.openLists kind (level - run.length) := by
  unfold nestLists
  dsimp only
  rw [hrun, h]
  rfl

theorem Writer.surplus_nil (level : Nat) (kind : ListKind) : surplus [] level kind = 0 := by
  simp [surplus]

theorem ofTag?_tag (kind : ListKind) : ListKind.ofTag? kind.tag = some kind := by
  cases kind <;> decide

theorem listRun_map_tag (run : List ListKind) : listRun (run.map ListKind.tag) = run := by
  induction run with
  | nil => rfl
  | cons kind run ih => rw [List.map_cons, listRun, ofTag?_tag, ih]

theorem listRun_replicate (n : Nat) (kind : ListKind) :
    listRun (List.replicate n kind.tag) = List.replicate n kind := by
  rw [← List.map_replicate, listRun_map_tag]

/-- No list is surplus for an item of the same list. -/
theorem Writer.surplus_replicate {n : Nat} (h : 1 ≤ n) (kind : ListKind) :
    surplus (List.replicate n kind) n kind = 0 := by
  obtain ⟨m, rfl⟩ := Nat.exists_eq_add_of_le' h
  simp [surplus, List.replicate_succ]

end

end WikiHtml.Html
