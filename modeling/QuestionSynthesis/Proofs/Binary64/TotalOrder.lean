import QuestionSynthesis.Binary64.Basic

/-!
# The total order of doubles

Ranks order all bit patterns as the floating-point standard does: numbers as numbers, `-0` before
`+0`, and the NaNs outside of the infinities, each on the side of its sign (`rank_le_iff`).
-/

namespace QuestionSynthesis

namespace Binary64

variable {x y : Binary64}

/-- The total order of the floating-point standard: the first pattern is the second or stands
before it. -/
inductive Precedes (x y : Binary64) : Prop where
  | less (less : x.lt y = true)
  | equal (equal : x.eq y = true) (signs : y.isNegative = true → x.isNegative = true)
  | below (nan : x.isNaN = true) (sign : x.isNegative = true)
      (outer : y.isNaN = true → y.isNegative = true → y.magnitude ≤ x.magnitude)
  | above (nan : y.isNaN = true) (sign : y.isNegative = false)
      (outer : x.isNaN = true → x.isNegative = false → x.magnitude ≤ y.magnitude)

theorem isNaN_iff (x : Binary64) : x.isNaN = true ↔ infinity.magnitude < x.magnitude := by
  simp [isNaN]

theorem rank_of_negative (h : x.isNegative = true) : x.rank = -x.magnitude - 1 := if_pos h

theorem rank_of_positive (h : x.isNegative = false) : x.rank = x.magnitude := by
  simp [rank, h]

theorem rank_le_iff_position : x.rank ≤ y.rank ↔ x.position < y.position ∨
    x.position = y.position ∧ (y.isNegative = true → x.isNegative = true) := by
  unfold rank position
  cases x.isNegative <;> cases y.isNegative <;>
    simp only [↓reduceIte, Bool.false_eq_true, imp_self, imp_false, not_true_eq_false,
      false_imp_iff, and_true, and_false, or_false] <;> omega

theorem position_le_of_rank_le (h : x.rank ≤ y.rank) : x.position ≤ y.position := by
  rcases rank_le_iff_position.mp h with less | ⟨same, -⟩
  · exact Int.le_of_lt less
  · exact Int.le_of_eq same

theorem Precedes.rank_le (h : x.Precedes y) : x.rank ≤ y.rank := by
  cases h with
  | less less =>
    simp only [lt, Bool.and_eq_true, decide_eq_true_eq] at less
    exact rank_le_iff_position.mpr (.inl less.2)
  | equal equal signs =>
    simp only [eq, Bool.and_eq_true, decide_eq_true_eq] at equal
    exact rank_le_iff_position.mpr (.inr ⟨equal.2, signs⟩)
  | below nan sign outer =>
    rw [isNaN_iff] at nan outer
    rw [rank_of_negative sign]
    cases hy : y.isNegative with
    | true =>
      rw [rank_of_negative hy]
      by_cases far : infinity.magnitude < y.magnitude
      · have := outer far hy
        omega
      · omega
    | false =>
      rw [rank_of_positive hy]
      omega
  | above nan sign outer =>
    rw [isNaN_iff] at nan outer
    rw [rank_of_positive sign]
    cases hx : x.isNegative with
    | true =>
      rw [rank_of_negative hx]
      omega
    | false =>
      rw [rank_of_positive hx]
      by_cases far : infinity.magnitude < x.magnitude
      · have := outer far hx
        omega
      · omega

theorem below_negative (h : x.rank ≤ y.rank) (negative : y.isNegative = true) :
    x.isNegative = true ∧ y.magnitude ≤ x.magnitude := by
  rw [rank_of_negative negative] at h
  cases hx : x.isNegative with
  | true =>
    rw [rank_of_negative hx] at h
    exact ⟨rfl, by omega⟩
  | false =>
    rw [rank_of_positive hx] at h
    omega

theorem above_positive (h : x.rank ≤ y.rank) (positive : x.isNegative = false) :
    y.isNegative = false ∧ x.magnitude ≤ y.magnitude := by
  rw [rank_of_positive positive] at h
  cases hy : y.isNegative with
  | true =>
    rw [rank_of_negative hy] at h
    omega
  | false =>
    rw [rank_of_positive hy] at h
    exact ⟨rfl, by omega⟩

theorem precedes_of_numbers (hx : x.isNaN = false) (hy : y.isNaN = false)
    (h : x.rank ≤ y.rank) : x.Precedes y := by
  rcases Int.le_iff_lt_or_eq.mp (position_le_of_rank_le h) with less | same
  · exact .less (by simp [lt, hx, hy, less])
  · exact .equal (by simp [eq, hx, hy, same]) fun negative => (below_negative h negative).1

theorem precedes_of_rank_le (h : x.rank ≤ y.rank) : x.Precedes y := by
  by_cases below : x.isNaN = true ∧ x.isNegative = true
  · exact .below below.1 below.2 fun _ negative => (below_negative h negative).2
  by_cases above : y.isNaN = true ∧ y.isNegative = false
  · exact .above above.1 above.2 fun _ positive => (above_positive h positive).2
  -- a NaN on its inner side would have the other pattern beyond it, among the outer NaNs
  have numberX : x.isNaN = false := by
    rw [Bool.eq_false_iff]
    intro nan
    obtain ⟨positive, further⟩ := above_positive h (by simpa [nan] using below)
    have beyond : y.isNaN = true :=
      y.isNaN_iff.mpr (Nat.lt_of_lt_of_le (x.isNaN_iff.mp nan) further)
    exact above ⟨beyond, positive⟩
  have numberY : y.isNaN = false := by
    rw [Bool.eq_false_iff]
    intro nan
    obtain ⟨negative, further⟩ := below_negative h (by simpa [nan] using above)
    have beyond : x.isNaN = true :=
      x.isNaN_iff.mpr (Nat.lt_of_lt_of_le (y.isNaN_iff.mp nan) further)
    exact below ⟨beyond, negative⟩
  exact precedes_of_numbers numberX numberY h

theorem rank_le_iff : x.rank ≤ y.rank ↔ x.Precedes y :=
  ⟨precedes_of_rank_le, Precedes.rank_le⟩

end Binary64

end QuestionSynthesis
