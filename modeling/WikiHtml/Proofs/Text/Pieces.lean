-- A text cut at a character, such as a path at its slashes or a text at its line breaks. No piece holds
-- the character, and the text is the first piece with the others behind it, each after the character.
import Mathlib.Data.List.Basic
import Std.Data.String.ToNat

namespace WikiHtml.Text

/-! ## Pieces behind each other -/

section

variable {α : Type}

/-- Pieces of a text behind others, each after the character that it was cut at. -/
def behind (sep : α) (pieces : List (List α)) : List α :=
  pieces.flatMap (sep :: ·)

theorem behind_cons (sep : α) (piece : List α) (pieces : List (List α)) :
    behind sep (piece :: pieces) = sep :: (piece ++ behind sep pieces) :=
  rfl

theorem eq_of_head?_behind {sep c : α} {pieces : List (List α)}
    (h : c ∈ (behind sep pieces).head?) : c = sep := by
  cases pieces with
  | nil => cases h
  | cons piece pieces => exact (Option.mem_some.mp h).symm

theorem infix_behind {piece : List α} {pieces : List (List α)} (h : piece ∈ pieces) (sep : α) :
    piece <:+: behind sep pieces := by
  induction pieces with
  | nil => cases h
  | cons first pieces ih =>
    rw [behind_cons]
    rcases List.mem_cons.mp h with rfl | h
    · exact ⟨[sep], behind sep pieces, rfl⟩
    · exact (ih h).trans ((List.suffix_append first _).trans (List.suffix_cons sep _)).isInfix

theorem intercalate_cons (sep : α) (piece : List α) (pieces : List (List α)) :
    [sep].intercalate (piece :: pieces) = piece ++ behind sep pieces := by
  induction pieces generalizing piece with
  | nil => simp [behind]
  | cons second pieces ih =>
    rw [List.intercalate_cons_cons, ih, behind_cons, List.append_assoc, List.singleton_append]

end

/-! ## Cutting -/

variable {α : Type} [BEq α] [LawfulBEq α] {sep : α}

theorem splitOn_append_cons (a rest : List α) :
    (a ++ sep :: rest).splitOn sep = a.splitOn sep ++ rest.splitOn sep := by
  rw [List.splitOn_eq_splitOnP, List.splitOnP_append_cons a rest (by simp)]
  simp only [List.splitOn_eq_splitOnP]

theorem not_mem_splitOn {text piece : List α} (h : piece ∈ text.splitOn sep) : sep ∉ piece := by
  induction text generalizing piece with
  | nil =>
    rw [List.splitOn_nil, List.mem_singleton] at h
    simp [h]
  | cons c rest ih =>
    rw [List.splitOn_cons_eq_if_modifyHead] at h
    split at h
    · rcases List.mem_cons.mp h with rfl | h
      · exact List.not_mem_nil
      · exact ih h
    · rename_i hc
      obtain ⟨first, later, hsplit⟩ := List.exists_cons_of_ne_nil (List.splitOn_ne_nil sep rest)
      rw [hsplit] at h ih
      rcases List.mem_cons.mp h with rfl | h
      · rw [List.mem_cons, not_or]
        exact ⟨fun heq => hc (by simp [← heq]), ih (by simp)⟩
      · exact ih (List.mem_cons_of_mem _ h)

theorem splitOn_of_not_mem {piece : List α} (h : sep ∉ piece) : piece.splitOn sep = [piece] := by
  have hone : ∀ p ∈ [piece], sep ∉ p := by simpa using h
  simpa using List.splitOn_intercalate sep hone (by simp)

/-- A text is made up of its pieces. -/
theorem exists_pieces (sep : α) (text : List α) :
    ∃ piece pieces, text.splitOn sep = piece :: pieces ∧ text = piece ++ behind sep pieces ∧
      sep ∉ piece ∧ ∀ p ∈ pieces, sep ∉ p := by
  obtain ⟨piece, pieces, hsplit⟩ := List.exists_cons_of_ne_nil (List.splitOn_ne_nil sep text)
  have hnone : ∀ p ∈ piece :: pieces, sep ∉ p := fun p hp => not_mem_splitOn (hsplit ▸ hp)
  refine ⟨piece, pieces, hsplit, ?_, hnone piece (by simp), fun p hp => hnone p (by simp [hp])⟩
  rw [← intercalate_cons, ← hsplit, List.intercalate_splitOn]

/-- A number is written with digits only. -/
theorem not_mem_toString {c : Char} (hc : c.isDigit = false) (n : Nat) :
    c ∉ (toString n).toList := by
  intro h
  rw [Nat.toString_eq_repr, Nat.repr, String.toList_ofList] at h
  rw [Nat.isDigit_of_mem_toDigits (by decide) (by decide) h] at hc
  cases hc

end WikiHtml.Text
