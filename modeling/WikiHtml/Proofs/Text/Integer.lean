-- Whole numbers that are written and read back: decimal digits, zeros in front of them, and a sign.
-- What is read is always within the range that it is read for.
import Mathlib.Algebra.Group.Int.Defs
import Mathlib.Algebra.Group.Nat.Defs
import Mathlib.Data.List.Basic
import WikiHtml.Text.Integer

namespace WikiHtml.Text

/-! ## Digits -/

theorem natural?_of_digits {s : List Char} (hs : s ≠ []) (hd : ∀ c ∈ s, c.isDigit = true) :
    natural? s = some (Nat.ofDigitChars 10 s 0) := by
  have hall : s ≠ [] ∧ s.all Char.isDigit := ⟨hs, List.all_eq_true.mpr hd⟩
  rw [natural?, if_pos hall, Nat.ofDigitChars]
  simp only [Nat.mul_comm 10]

theorem isDigit_padded (width n : Nat) : ∀ c ∈ (padded '0' width n).toList, c.isDigit = true := by
  intro c hc
  rw [padded, String.toList_ofList, List.mem_append] at hc
  rcases hc with hc | hc
  · rw [List.eq_of_mem_replicate hc]
    rfl
  · exact Nat.isDigit_of_mem_toDigits (by decide) (by decide) hc

theorem padded_ne_nil (width n : Nat) : (padded '0' width n).toList ≠ [] := by
  rw [padded, String.toList_ofList]
  exact List.append_ne_nil_of_right_ne_nil _ Nat.toDigits_ne_nil

/-- Zeros in front do not count. -/
theorem natural?_padded (width n : Nat) : natural? (padded '0' width n).toList = some n := by
  rw [natural?_of_digits (padded_ne_nil width n) (isDigit_padded width n), padded,
    String.toList_ofList, Nat.ofDigitChars_append, Nat.ofDigitChars_replicate_zero, Nat.mul_zero,
    Nat.ofDigitChars_ten_toDigits]

theorem toString_eq_padded (n : Nat) : toString n = padded '0' 0 n := by
  rw [padded, Nat.zero_sub, List.replicate_zero, List.nil_append, Nat.toString_eq_ofList_toDigits]

/-! ## Signs -/

theorem toString_eq (n : Int) : toString n = (if n < 0 then "-" else "") ++ toString n.natAbs := by
  rw [Int.toString_eq_repr, Int.repr_eq_if]
  split
  · rename_i hpos
    rw [if_neg (by omega), String.empty_append, Nat.toString_eq_repr,
      show n.toNat = n.natAbs by omega]
  · rename_i hneg
    rw [if_pos (by omega), Nat.toString_eq_repr, show (-n).toNat = n.natAbs by omega]

/-- A number is written with digits, and perhaps a minus sign. -/
theorem mem_toString {n : Int} : ∀ c ∈ (toString n).toList, c = '-' ∨ c.isDigit = true := by
  intro c hc
  rw [toString_eq, toString_eq_padded, String.toList_append, List.mem_append] at hc
  rcases hc with hc | hc
  · split at hc
    · exact Or.inl (List.mem_singleton.mp hc)
    · cases hc
  · exact Or.inr (isDigit_padded 0 _ c hc)

theorem toString_ne_nil (n : Int) : (toString n).toList ≠ [] := by
  rw [toString_eq, toString_eq_padded, String.toList_append]
  exact List.append_ne_nil_of_right_ne_nil _ (padded_ne_nil 0 _)

theorem integer?_of_digits {least greatest : Int} {s : List Char} {n : Nat}
    (hs : ∀ c ∈ s, c.isDigit = true) (hn : natural? s = some n) (hl : least ≤ n)
    (hg : n ≤ greatest) : integer? least greatest s = some (n : Int) := by
  have hvalue : integer? least greatest s = ((natural? s).map Int.ofNat).filter
      fun n => least ≤ n && n ≤ greatest := by
    unfold integer?
    split
    · exact absurd (hs '+' (by simp)) (by decide)
    · exact absurd (hs '-' (by simp)) (by decide)
    · rfl
  rw [hvalue, hn]
  simp [hl, hg]

theorem integer?_of_minus {least greatest : Int} {s : List Char} {n : Nat}
    (hn : natural? s = some n) (hl : least ≤ -n) (hg : -n ≤ greatest) (hneg : least < 0) :
    integer? least greatest ('-' :: s) = some (-n : Int) := by
  have hvalue : integer? least greatest ('-' :: s) =
      (some (-n : Int)).filter fun n => least ≤ n && n ≤ greatest := by
    simp only [integer?, if_pos hneg, hn]
    rfl
  rw [hvalue]
  simp [hl, hg]

/-- A number is read as it was written. -/
theorem integer?_toString {least greatest n : Int} (hl : least ≤ n) (hg : n ≤ greatest) :
    integer? least greatest (toString n).toList = some n := by
  rw [toString_eq, toString_eq_padded]
  split
  · rename_i hneg
    have habs : -((n.natAbs : Nat) : Int) = n := by omega
    rw [String.toList_append]
    refine (integer?_of_minus (natural?_padded 0 _) ?_ ?_ ?_).trans (congrArg some habs) <;> omega
  · rename_i hpos
    rw [String.empty_append, integer?_of_digits (isDigit_padded 0 _) (natural?_padded 0 _)
      (by omega) (by omega), Int.natAbs_of_nonneg (by omega)]

theorem integer?_within {least greatest n : Int} {s : List Char}
    (h : integer? least greatest s = some n) : least ≤ n ∧ n ≤ greatest := by
  obtain ⟨_, hrange⟩ := Option.filter_eq_some_iff.mp h
  simpa using hrange

theorem unsigned?_within {bits n : Nat} {s : List Char} (h : unsigned? bits s = some n) :
    n < 2 ^ bits := by
  obtain ⟨value, hvalue, rfl⟩ := Option.map_eq_some_iff.mp h
  obtain ⟨hpos, hle⟩ := integer?_within hvalue
  have hpow : Nat.pow 2 bits = 2 ^ bits := rfl
  simp only [Int.ofNat_eq_natCast, hpow] at hle
  omega

theorem unsigned?_padded {bits width n : Nat} (h : n < 2 ^ bits) :
    unsigned? bits (padded '0' width n).toList = some n := by
  have hpow : Nat.pow 2 bits = 2 ^ bits := rfl
  rw [unsigned?, integer?_of_digits (isDigit_padded width n) (natural?_padded width n)
    (Int.natCast_nonneg n) (by simp only [Int.ofNat_eq_natCast, hpow]; omega)]
  rfl

end WikiHtml.Text
