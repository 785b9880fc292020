-- The cells of a table with content, as a list of places. Writing into the place of a number in
-- that list replaces the content of that number, and nothing else; and so does writing into a cell,
-- whether it has content or not.
import WikiHtml.Proofs.Element.Children
import WikiHtml.Tree.Edit

namespace WikiHtml.Substitution

open Element WikiHtml.Tree

/-! ## One row -/

/-- The cells with content of a row that starts at a column. -/
def placesFrom (row start : Nat) (cells : List (Cell NodeId)) : List Place :=
  (cells.zipIdx start).filterMap fun (cell, column) => cell.content.map fun id => (row, column, id)

theorem placesFrom_none (row start : Nat) (header : Bool) (params : Option String)
    (rest : List (Cell NodeId)) :
    placesFrom row start (⟨header, params, none⟩ :: rest) = placesFrom row (start + 1) rest := by
  simp [placesFrom, List.zipIdx_cons]

theorem placesFrom_some (row start : Nat) (header : Bool) (params : Option String) (id : NodeId)
    (rest : List (Cell NodeId)) :
    placesFrom row start (⟨header, params, some id⟩ :: rest) =
      (row, start, id) :: placesFrom row (start + 1) rest := by
  simp [placesFrom, List.zipIdx_cons]

theorem placesFrom_ids (row start : Nat) (cells : List (Cell NodeId)) :
    (placesFrom row start cells).map (·.2.2) = rowContents cells := by
  induction cells generalizing start with
  | nil => rfl
  | cons cell rest ih =>
    obtain ⟨header, params, _ | x⟩ := cell
    · rw [placesFrom_none, ih]; simp [rowContents]
    · rw [placesFrom_some, List.map_cons, ih]; simp [rowContents]

/-- The place of a number in a row: its row, and the cell that its content goes into. -/
theorem placesFrom_get {cells : List (Cell NodeId)} {values : List NodeId} {row start k : Nat}
    {place : Place} (y : NodeId) (hk : (placesFrom row start cells)[k]? = some place)
    (hl : (rowContents cells).length ≤ values.length) :
    place.1 = row ∧ ∃ c, place.2.1 = start + c ∧
      (refillCells cells values).modify c ({ · with content := some y }) =
        refillCells cells (values.set k y) ∧
      (refillCells cells values)[c]?.bind (·.content) = values[k]? := by
  induction cells generalizing values start k with
  | nil => simp [placesFrom] at hk
  | cons cell rest ih =>
    obtain ⟨header, params, _ | x⟩ := cell
    · rw [placesFrom_none] at hk
      obtain ⟨hrow, c, hc, hset, hget⟩ := ih hk (by simpa [rowContents] using hl)
      exact ⟨hrow, c + 1, by omega, by simp [refillCells, hset], by simpa [refillCells] using hget⟩
    · rw [placesFrom_some] at hk
      rcases values with _ | ⟨v, vs⟩
      · simp [rowContents] at hl
      rcases k with _ | k
      · simp only [List.getElem?_cons_zero, Option.some.injEq] at hk
        subst hk
        exact ⟨rfl, 0, rfl, by simp [refillCells], by simp [refillCells]⟩
      · obtain ⟨hrow, c, hc, hset, hget⟩ := ih (by simpa using hk) (by simpa [rowContents] using hl)
        exact ⟨hrow, c + 1, by omega, by simp [refillCells, hset],
          by simpa [refillCells] using hget⟩

/-! ## All rows -/

/-- The cells with content of rows that start at a row. -/
def placesDown (start : Nat) (rows : List (Row NodeId)) : List Place :=
  (rows.zipIdx start).flatMap fun (row, index) => placesFrom index 0 row.cells

theorem places_eq (rows : List (Row NodeId)) : places rows = placesDown 0 rows := rfl

theorem placesDown_cons (start : Nat) (row : Row NodeId) (rest : List (Row NodeId)) :
    placesDown start (row :: rest) =
      placesFrom start 0 row.cells ++ placesDown (start + 1) rest := by
  simp [placesDown, List.zipIdx_cons]

theorem placesDown_ids (start : Nat) (rows : List (Row NodeId)) :
    (placesDown start rows).map (·.2.2) = contents rows := by
  induction rows generalizing start with
  | nil => rfl
  | cons row rest ih =>
    rw [placesDown_cons, contents_cons, List.map_append, placesFrom_ids, ih]

theorem placesDown_get {rows : List (Row NodeId)} {values : List NodeId} {start k : Nat}
    {place : Place} (y : NodeId) (hk : (placesDown start rows)[k]? = some place)
    (hl : values.length = (contents rows).length) :
    ∃ r, place.1 = start + r ∧
      setContent (refillRows rows values) r place.2.1 (some y) =
        refillRows rows (values.set k y) ∧
      cellContent (refillRows rows values) r place.2.1 = values[k]? := by
  induction rows generalizing values start k with
  | nil => simp [placesDown] at hk
  | cons row rest ih =>
    rw [contents_cons, List.length_append] at hl
    have hn : (placesFrom start 0 row.cells).length = (rowContents row.cells).length := by
      rw [← placesFrom_ids start 0, List.length_map]
    rw [placesDown_cons] at hk
    by_cases hlt : k < (placesFrom start 0 row.cells).length
    · rw [List.getElem?_append_left hlt] at hk
      have hv : (rowContents row.cells).length ≤ values.length := by omega
      obtain ⟨hrow, c, hc, hset, hget⟩ := placesFrom_get y hk hv
      refine ⟨0, by omega, ?_, ?_⟩
      · simp only [setContent, refillRows, List.modify_zero_cons, hc, Nat.zero_add, hset]
        rw [List.drop_set_of_lt (by omega)]
      · simpa [cellContent, refillRows, hc] using hget
    · rw [List.getElem?_append_right (by omega), hn] at hk
      have hv : (values.drop (rowContents row.cells).length).length = (contents rest).length := by
        rw [List.length_drop]
        omega
      obtain ⟨r, hr, hset, hget⟩ := ih hk hv
      refine ⟨r + 1, by omega, ?_, ?_⟩
      · simp only [setContent, refillRows, List.modify_succ_cons] at hset ⊢
        rw [hset, ← refillCells_take row.cells (values.set k y), List.take_set_of_le (by omega),
          refillCells_take, List.drop_set, if_neg (by omega)]
      · simp only [cellContent, refillRows, List.getElem?_cons_succ] at hget ⊢
        rw [hget, List.getElem?_drop]
        congr 1
        omega

/-- Writing into the place of a number of a table replaces the content of that number. -/
theorem setContent_place {rows : List (Row NodeId)} {values : List NodeId} {k : Nat}
    {place : Place} (y : NodeId) (hk : (places rows)[k]? = some place)
    (hl : values.length = (contents rows).length) :
    setContent (refillRows rows values) place.1 place.2.1 (some y) =
        refillRows rows (values.set k y) ∧
      cellContent (refillRows rows values) place.1 place.2.1 = values[k]? := by
  obtain ⟨r, hr, hset, hget⟩ := placesDown_get y hk hl
  rw [Nat.zero_add] at hr
  exact hr ▸ ⟨hset, hget⟩

/-! ## One cell -/

theorem rowContents_modify {cells : List (Cell NodeId)} {cell : Nat} (h : cell < cells.length) :
    ∃ front back, rowContents cells = front ++ (cells[cell]?.bind (·.content)).toList ++ back ∧
      ∀ new, rowContents (cells.modify cell ({ · with content := new })) =
        front ++ new.toList ++ back := by
  induction cells generalizing cell with
  | nil => simp at h
  | cons c rest ih =>
    rcases cell with _ | cell
    · exact ⟨[], rowContents rest, by simp [rowContents_cons], fun new => by simp [rowContents_cons]⟩
    · obtain ⟨front, back, hbefore, hafter⟩ := ih (by simpa using h)
      refine ⟨c.content.toList ++ front, back, ?_, fun new => ?_⟩
      · simp only [rowContents_cons, hbefore, List.getElem?_cons_succ, List.append_assoc]
      · simp only [rowContents_cons, hafter, List.modify_succ_cons, List.append_assoc]

/-- A table keeps what its other cells hold when the content of one cell is replaced. -/
theorem contents_setContent {rows : List (Row NodeId)} {row cell : Nat}
    (h : hasCell rows row cell = true) :
    ∃ front back, contents rows = front ++ (cellContent rows row cell).toList ++ back ∧
      ∀ new, contents (setContent rows row cell new) = front ++ new.toList ++ back := by
  induction rows generalizing row with
  | nil => simp [hasCell] at h
  | cons r rest ih =>
    rcases row with _ | row
    · have hcell : cell < r.cells.length := by simpa [hasCell] using h
      obtain ⟨front, back, hbefore, hafter⟩ := rowContents_modify hcell
      refine ⟨front, back ++ contents rest, ?_, fun new => ?_⟩
      · simp only [contents_cons, hbefore, List.append_assoc]
        rfl
      · simp only [setContent, List.modify_zero_cons, contents_cons, hafter, List.append_assoc]
    · have hcell : hasCell rest row cell = true := by simpa [hasCell] using h
      obtain ⟨front, back, hbefore, hafter⟩ := ih hcell
      refine ⟨rowContents r.cells ++ front, back, ?_, fun new => ?_⟩
      · simp only [contents_cons, hbefore, List.append_assoc]
        rfl
      · have hrest := hafter new
        simp only [setContent] at hrest
        simp only [setContent, List.modify_succ_cons, contents_cons, hrest, List.append_assoc]

end WikiHtml.Substitution
