-- What each move of a cursor does. A cursor always stands between the characters that were read and
-- those that are left, so one equation tells what a move makes of the two.
import Mathlib.Data.List.Induction
import WikiHtml.Highlight.Scanner

namespace WikiHtml.Highlight

/-! ## Columns of a text -/

/-- The column of what comes after a text: how many characters stand behind its last line break. -/
def columnAfter (text : List Char) : Nat :=
  (text.reverse.takeWhile (· != '\n')).length

theorem columnAfter_snoc (text : List Char) (c : Char) :
    columnAfter (text ++ [c]) = if c = '\n' then 0 else columnAfter text + 1 := by
  by_cases hc : c = '\n' <;> simp [columnAfter, hc]

theorem columnAfter_append (text : List Char) {more : List Char} (h : '\n' ∉ more) :
    columnAfter (text ++ more) = columnAfter text + more.length := by
  induction more using List.reverseRecOn with
  | nil => simp
  | append_singleton more c ih =>
    simp only [List.mem_append, List.mem_singleton, not_or] at h
    rw [← List.append_assoc, columnAfter_snoc, if_neg (Ne.symm h.2), ih h.1, List.length_append,
      List.length_singleton, Nat.add_assoc]

namespace Scanner

/-! ## Moves -/

/-- A cursor with some characters before it and the others after it. -/
def between (front rest : List Char) : Scanner :=
  ⟨(front ++ rest).toArray, front.length⟩

theorem new_eq (code : String) : new code = between [] (withoutReturns code.toList) :=
  rfl

section Moves

variable (front : List Char) (c : Char) (rest : List Char)

theorem getElem?_between (n : Nat) :
    (between front rest).chars[front.length + n]? = rest[n]? := by
  simp [between, List.getElem?_append_right]

@[simp] theorem peek_between : (between front rest).peek = rest.head? := by
  rw [peek, List.head?_eq_getElem?]
  exact getElem?_between front rest 0

@[simp] theorem nextChar_nil : (between front []).nextChar = none := by
  simp [nextChar, between]

@[simp] theorem nextChar_cons :
    (between front (c :: rest)).nextChar = some (c, between (front ++ [c]) rest) := by
  simp [nextChar, between]

@[simp] theorem unread_between : (between (front ++ [c]) rest).unread = between front (c :: rest) := by
  simp [unread, between]

@[simp] theorem rest_between : (between front rest).rest = rest := by
  simp [Scanner.rest, between]

theorem startsAt_between (mark : List Char) (n : Nat) :
    (between front rest).startsAt mark (front.length + n) = mark.isPrefixOf (rest.drop n) := by
  induction mark generalizing n with
  | nil => simp [startsAt]
  | cons c mark ih =>
    rw [startsAt, getElem?_between, Nat.add_assoc, ih]
    rcases hn : rest.drop n with _ | ⟨d, rest'⟩
    · simp [List.drop_eq_nil_iff.mp hn]
    · have hget : rest[n]? = some d := by simp [← List.head?_drop, hn]
      have hdrop : rest.drop (n + 1) = rest' := by rw [← List.tail_drop, hn, List.tail_cons]
      rw [hget, hdrop, List.isPrefixOf_cons_cons, Bool.beq_comm]
      rfl

@[simp] theorem isAt_between (mark : String) :
    (between front rest).isAt mark = mark.toList.isPrefixOf rest :=
  startsAt_between front rest mark.toList 0

@[simp] theorem eat_fst (mark : String) :
    ((between front rest).eat mark).1 = mark.toList.isPrefixOf rest := by
  rw [eat, isAt_between]
  cases mark.toList.isPrefixOf rest <;> rfl

/-- A mark that comes next is read as a whole. -/
theorem eat_append {mark : String} (chars : List Char) (h : mark.toList = chars) :
    (between front (chars ++ rest)).eat mark = (true, between (front ++ chars) rest) := by
  subst h
  have hat : (between front (mark.toList ++ rest)).isAt mark = true := by simp
  rw [eat, if_pos hat]
  simp [between, ← String.length_toList]

/-- If a mark does not come next, nothing is read. -/
theorem eat_other {mark : String} (h : mark.toList.isPrefixOf rest = false) :
    (between front rest).eat mark = (false, between front rest) := by
  simp [eat, h]

end Moves

theorem lineStart_between (front read rest : List Char) :
    (between (front ++ read) rest).lineStart front.length + columnAfter front = front.length := by
  induction front using List.reverseRecOn generalizing read with
  | nil => rfl
  | append_singleton front c ih =>
    have hget : (between (front ++ [c] ++ read) rest).chars[front.length]? = some c := by
      simp [between]
    have hih := ih (c :: read)
    rw [List.append_cons] at hih
    rw [List.length_append, List.length_singleton, lineStart, hget, columnAfter_snoc]
    by_cases hc : c = '\n'
    · simp [hc]
    · simp only [Option.some_beq_some, beq_iff_eq, hc, if_false]
      omega

@[simp] theorem column_between (front rest : List Char) :
    (between front rest).column = columnAfter front := by
  have h := lineStart_between front [] rest
  rw [List.append_nil] at h
  show front.length - (between front rest).lineStart front.length = _
  omega

/-! ## Reading on -/

theorem nextChar_cons_inj {front rest : List Char} {c d : Char} {s : Scanner}
    (h : (between front (c :: rest)).nextChar = some (d, s)) :
    d = c ∧ s = between (front ++ [c]) rest := by
  simpa [eq_comm] using h

/-- A text goes on with so many of the characters that are left, and the cursor stands behind them. -/
def taking (text : String) (front rest : List Char) (n : Nat) : String × Scanner :=
  (text ++ String.ofList (rest.take n), between (front ++ rest.take n) (rest.drop n))

section Taking

variable (text : String) (front : List Char) (c : Char) (rest : List Char) (n : Nat)

@[simp] theorem taking_zero : taking text front rest 0 = (text, between front rest) := by
  simp [taking]

theorem taking_push :
    taking (text.push c) (front ++ [c]) rest n = taking text front (c :: rest) (n + 1) := by
  have htext : text.push c ++ String.ofList (rest.take n) =
      text ++ String.ofList (c :: rest.take n) := by
    apply String.toList_inj.mp
    simp
  simp [taking, htext]

theorem taking_one :
    taking text front (c :: rest) 1 = (text.push c, between (front ++ [c]) rest) := by
  rw [← taking_push, taking_zero]

end Taking

theorem readUntil_nil (stop : Char → Bool) (text : String) (front : List Char) :
    readUntil stop text (between front []) = (text, between front []) := by
  rw [readUntil]
  split <;> simp_all

theorem readUntil_cons (stop : Char → Bool) (text : String) (front : List Char) (c : Char)
    (rest : List Char) :
    readUntil stop text (between front (c :: rest)) =
      if stop c then (text, between front (c :: rest))
      else readUntil stop (text.push c) (between (front ++ [c]) rest) := by
  rw [readUntil]
  split
  · simp_all
  · rename_i hnext
    obtain ⟨rfl, rfl⟩ := nextChar_cons_inj hnext
    rw [unread_between]

/-- What is read is what stands before the character that stops. -/
theorem readUntil_between (stop : Char → Bool) (text : String) (front rest : List Char) :
    readUntil stop text (between front rest) =
      taking text front rest (lengthUntil stop rest) := by
  induction rest generalizing text front with
  | nil => simp [readUntil_nil, taking]
  | cons c rest ih =>
    rw [readUntil_cons]
    by_cases hc : stop c
    · simp [hc, lengthUntil]
    · have hlength : lengthUntil stop (c :: rest) = lengthUntil stop rest + 1 := by
        simp [lengthUntil, hc]
      rw [if_neg hc, ih, hlength, taking_push]

end Scanner

end WikiHtml.Highlight
