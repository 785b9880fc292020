-- The elements that an element holds, as one list in the order of the document: an element is given
-- by its own shape and that list, and putting a list of the same length back loses nothing.
import WikiHtml.Substitution.Walk

namespace WikiHtml.Element

variable {α β γ : Type}

/-! ## Putting other elements in -/

/-- The cells of a row, where the contents are replaced by values in their order. -/
def refillCells : List (Cell α) → List β → List (Cell β)
  | [], _ => []
  | ⟨header, params, none⟩ :: rest, values => ⟨header, params, none⟩ :: refillCells rest values
  | ⟨header, params, some _⟩ :: rest, values =>
    ⟨header, params, values.head?⟩ :: refillCells rest values.tail

/-- The contents of the cells of a row. -/
def rowContents (cells : List (Cell α)) : List α :=
  cells.filterMap (·.content)

/-- The rows of a table, where the contents of the cells are replaced by values in their order. -/
def refillRows : List (Row α) → List β → List (Row β)
  | [], _ => []
  | ⟨params, cells⟩ :: rest, values =>
    ⟨params, refillCells cells values⟩ :: refillRows rest (values.drop (rowContents cells).length)

/-- The element with its held ones replaced by values in their order. -/
def refill : Element α → List β → Element β
  | .list _, values => .list values
  | .wrap wrapper none, _ => .wrap wrapper none
  | .wrap wrapper (some _), values => .wrap wrapper values.head?
  | .table params rows, values => .table params (refillRows rows values)
  | .leaf l, _ => .leaf l

/-! ## Rows -/

theorem contents_cons (row : Row α) (rest : List (Row α)) :
    contents (row :: rest) = rowContents row.cells ++ contents rest := by
  simp [contents, rowContents]

theorem rowContents_cons (cell : Cell α) (rest : List (Cell α)) :
    rowContents (cell :: rest) = cell.content.toList ++ rowContents rest := by
  rcases hc : cell.content with _ | x <;> simp [rowContents, hc]

theorem rowContents_refillCells (cells : List (Cell α)) (values : List β)
    (h : (rowContents cells).length ≤ values.length) :
    rowContents (refillCells cells values) = values.take (rowContents cells).length := by
  induction cells generalizing values with
  | nil => simp [refillCells, rowContents]
  | cons cell rest ih =>
    obtain ⟨header, params, _ | x⟩ := cell
    · simpa [refillCells, rowContents] using ih values (by simpa [rowContents] using h)
    · rcases values with _ | ⟨v, vs⟩
      · simp [rowContents] at h
      · have := ih vs (by simpa [rowContents] using h)
        simpa [refillCells, rowContents] using this

theorem contents_refillRows (rows : List (Row α)) (values : List β)
    (h : values.length = (contents rows).length) : contents (refillRows rows values) = values := by
  induction rows generalizing values with
  | nil => simp [contents] at h; simp [refillRows, contents, h]
  | cons row rest ih =>
    rw [contents_cons, List.length_append] at h
    rw [refillRows, contents_cons, rowContents_refillCells _ _ (by omega), ih _ (by simp; omega),
      List.take_append_drop]

theorem refillCells_self (cells : List (Cell α)) (values : List α) :
    refillCells cells (rowContents cells ++ values) = cells := by
  induction cells with
  | nil => rfl
  | cons cell rest ih =>
    obtain ⟨header, params, _ | x⟩ := cell
    · simpa [refillCells, rowContents] using ih
    · simpa [refillCells, rowContents] using ih

theorem refillRows_self (rows : List (Row α)) : refillRows rows (contents rows) = rows := by
  induction rows with
  | nil => rfl
  | cons row rest ih =>
    rw [contents_cons, refillRows, refillCells_self, List.drop_left, ih]

theorem refillCells_refillCells (cells : List (Cell α)) (values : List β) (others : List γ)
    (h : (rowContents cells).length ≤ values.length) :
    refillCells (refillCells cells values) others = refillCells cells others := by
  induction cells generalizing values others with
  | nil => rfl
  | cons cell rest ih =>
    obtain ⟨header, params, _ | x⟩ := cell
    · simpa [refillCells] using ih values others (by simpa [rowContents] using h)
    · rcases values with _ | ⟨v, vs⟩
      · simp [rowContents] at h
      · simpa [refillCells] using ih vs others.tail (by simpa [rowContents] using h)

theorem refillRows_refillRows (rows : List (Row α)) (values : List β) (others : List γ)
    (h : values.length = (contents rows).length) :
    refillRows (refillRows rows values) others = refillRows rows others := by
  induction rows generalizing values others with
  | nil => rfl
  | cons row rest ih =>
    rw [contents_cons, List.length_append] at h
    have hc : (rowContents row.cells).length ≤ values.length := by omega
    have hl : (rowContents (refillCells row.cells values)).length =
        (rowContents row.cells).length := by
      rw [rowContents_refillCells _ _ hc, List.length_take]; omega
    simp only [refillRows, hl, refillCells_refillCells _ _ _ hc]
    rw [ih _ _ (by simp; omega)]

theorem refillCells_take (cells : List (Cell α)) (values : List β) :
    refillCells cells (values.take (rowContents cells).length) = refillCells cells values := by
  induction cells generalizing values with
  | nil => rfl
  | cons cell rest ih =>
    obtain ⟨header, params, _ | x⟩ := cell
    · simpa [refillCells, rowContents] using ih values
    · rcases values with _ | ⟨v, vs⟩
      · simp
      · simpa [refillCells, rowContents] using ih vs

/-! ## Elements -/

theorem refill_children (e : Element α) : e.refill e.children = e := by
  cases e with
  | list members => rfl
  | wrap w child => cases child <;> rfl
  | table params rows => simp [refill, children, refillRows_self]
  | leaf l => rfl

/-- A list takes any number of elements, everything else as many as it holds. -/
def Takes (e : Element α) (count : Nat) : Prop :=
  e.isList = true ∨ count = e.children.length

theorem children_refill (e : Element α) (values : List β) (h : e.Takes values.length) :
    (e.refill values).children = values := by
  cases e with
  | list members => rfl
  | wrap w child =>
    rcases child with _ | x
    · simpa [Takes, isList, children, refill, eq_comm] using h
    · rcases values with _ | ⟨v, _ | ⟨v', vs⟩⟩ <;> simp [Takes, isList, children, refill] at h ⊢
  | table params rows =>
    exact contents_refillRows rows values (by simpa [Takes, isList, children] using h)
  | leaf l => simpa [Takes, isList, children, refill, eq_comm] using h

theorem refill_refill (e : Element α) (values : List β) (others : List γ)
    (h : e.Takes values.length) : (e.refill values).refill others = e.refill others := by
  cases e with
  | list members => rfl
  | wrap w child =>
    rcases child with _ | x
    · rfl
    · rcases values with _ | ⟨v, vs⟩
      · simp [Takes, isList, children] at h
      · rfl
  | table params rows =>
    simp only [refill]
    rw [refillRows_refillRows _ _ _ (by simpa [Takes, isList, children] using h)]
  | leaf l => rfl

@[simp] theorem isList_refill (e : Element α) (values : List β) :
    (e.refill values).isList = e.isList := by
  cases e with
  | wrap w child => cases child <;> rfl
  | _ => rfl

@[simp] theorem isPage_refill (e : Element α) (values : List β) :
    (e.refill values).isPage = e.isPage := by
  rcases e with _ | ⟨w, _ | x⟩ | _ | _
  · rfl
  · cases w <;> rfl
  · cases w <;> rfl
  · rfl
  · rfl

theorem mem_children_of_child? {e : Element α} {c : α} (h : e.child? = some c) :
    c ∈ e.children := by
  cases e with
  | wrap w child =>
    have hc : child = some c := h
    simp [children, hc]
  | _ => cases h

/-! ## Reading held elements -/

theorem length_of_mapM {f : α → Option β} {xs : List α} {ys : List β} (h : xs.mapM f = some ys) :
    ys.length = xs.length := by
  induction xs generalizing ys with
  | nil =>
    simp only [List.mapM_nil, Option.pure_def, Option.some.injEq] at h
    simp [← h]
  | cons x rest ih =>
    rw [List.mapM_cons] at h
    rcases hx : f x with _ | y
    · simp [hx] at h
    · rcases hr : rest.mapM f with _ | zs
      · simp [hr] at h
      · simp only [hx, hr, Option.bind_eq_bind, Option.bind_some, Option.pure_def,
          Option.some.injEq] at h
        simp [← h, ih hr]

theorem mem_of_mapM {f : α → Option β} {xs : List α} {ys : List β} (h : xs.mapM f = some ys)
    {y : β} (hy : y ∈ ys) : ∃ x ∈ xs, f x = some y := by
  induction xs generalizing ys with
  | nil =>
    simp only [List.mapM_nil, Option.pure_def, Option.some.injEq] at h
    simp [← h] at hy
  | cons x rest ih =>
    rw [List.mapM_cons] at h
    rcases hx : f x with _ | z
    · simp [hx] at h
    · rcases hr : rest.mapM f with _ | zs
      · simp [hr] at h
      · simp only [hx, hr, Option.bind_eq_bind, Option.bind_some, Option.pure_def,
          Option.some.injEq] at h
        rw [← h, List.mem_cons] at hy
        rcases hy with rfl | hy
        · exact ⟨x, by simp, hx⟩
        · obtain ⟨a, ha, he⟩ := ih hr hy
          exact ⟨a, List.mem_cons_of_mem x ha, he⟩

section

variable {m : Type → Type} [Monad m] [LawfulMonad m]

/-- The answers for two lists in a row can be told apart by their number. -/
theorem bind_mapM_append (f : α → m β) (xs zs : List α) (k : List β → List β → m γ) :
    ((xs ++ zs).mapM f >>= fun ys => k (ys.take xs.length) (ys.drop xs.length)) =
      xs.mapM f >>= fun as => zs.mapM f >>= fun bs => k as bs := by
  induction xs generalizing k with
  | nil => simp
  | cons x rest ih =>
    have hrest := fun y => ih fun as bs => k (y :: as) bs
    simp only [List.cons_append, List.mapM_cons, bind_assoc, pure_bind, List.length_cons,
      List.take_succ_cons, List.drop_succ_cons, hrest]

theorem mapM_mapCellM (f : α → m β) (cells : List (Cell α)) :
    cells.mapM (mapCellM f) = refillCells cells <$> (rowContents cells).mapM f := by
  induction cells with
  | nil => simp [rowContents, refillCells]
  | cons cell rest ih =>
    obtain ⟨header, params, _ | x⟩ := cell
    · simp [mapCellM, ih, rowContents, refillCells]
    · simp [mapCellM, ih, rowContents, refillCells]

theorem mapM_mapRowM (f : α → m β) (rows : List (Row α)) :
    rows.mapM (mapRowM f) = refillRows rows <$> (contents rows).mapM f := by
  induction rows with
  | nil => simp [contents, refillRows]
  | cons row rest ih =>
    have hrow := bind_mapM_append f (rowContents row.cells) (contents rest) fun as bs =>
      pure (Row.mk row.params (refillCells row.cells as) :: refillRows rest bs)
    simp only [refillCells_take] at hrow
    rw [List.mapM_cons, ih, mapRowM, mapM_mapCellM, contents_cons, map_eq_pure_bind (m := m)]
    simp only [bind_assoc, pure_bind, map_eq_pure_bind]
    exact hrow.symm

/-- An element is replaced when all that it holds is, in the order of the document, and it keeps its
shape. -/
theorem mapM_eq (f : α → m β) (e : Element α) : e.mapM f = e.refill <$> e.children.mapM f := by
  cases e with
  | list members =>
    simp only [Element.mapM, children, bind_pure_comp]
    rfl
  | wrap w child =>
    rcases child with _ | x
    · simp [Element.mapM, children, refill]
    · simp [Element.mapM, children, refill]
  | table params rows =>
    simp only [Element.mapM, children, mapM_mapRowM, bind_pure_comp, Functor.map_map]
    rfl
  | leaf l => simp [Element.mapM, children, refill]

end

end WikiHtml.Element
