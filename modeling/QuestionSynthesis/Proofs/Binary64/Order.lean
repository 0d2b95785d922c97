import QuestionSynthesis.Proofs.Binary64.TotalOrder

/-!
# Numeric comparison

Away from the NaNs, doubles compare as their positions on the line, so that `lt` is a strict order
that is total up to `eq` (`lt_trichotomy`); a NaN compares with nothing, not even with itself
(`eq_self_iff`). A change of sign reflects the line (`position_neg`).
-/

namespace QuestionSynthesis

namespace Binary64

variable {x y z : Binary64}

theorem lt_iff : x.lt y = true ↔ x.isNaN = false ∧ y.isNaN = false ∧ x.position < y.position := by
  simp [lt, and_assoc]

theorem eq_iff : x.eq y = true ↔ x.isNaN = false ∧ y.isNaN = false ∧ x.position = y.position := by
  simp [eq, and_assoc]

protected theorem eq_comm (x y : Binary64) : x.eq y = y.eq x := by
  rw [Bool.eq_iff_iff, eq_iff, eq_iff]
  constructor <;> exact fun ⟨left, right, same⟩ => ⟨right, left, same.symm⟩

theorem magnitude_of_eq (h : x.eq y = true) : x.magnitude = y.magnitude := by
  obtain ⟨-, -, same⟩ := eq_iff.mp h
  unfold position at same
  split at same <;> split at same <;> omega

theorem eq_self_iff (x : Binary64) : x.eq x = true ↔ x.isNaN = false := by
  simp [eq_iff]

protected theorem lt_trans (h : x.lt y = true) (h' : y.lt z = true) : x.lt z = true := by
  rw [lt_iff] at *
  exact ⟨h.1, h'.2.1, Int.lt_trans h.2.2 h'.2.2⟩

theorem not_eq_of_lt (h : x.lt y = true) : x.eq y = false := by
  rw [Bool.eq_false_iff, ne_eq, eq_iff]
  rw [lt_iff] at h
  omega

theorem not_lt_of_lt (h : x.lt y = true) : y.lt x = false := by
  rw [Bool.eq_false_iff, ne_eq, lt_iff]
  rw [lt_iff] at h
  omega

theorem lt_trichotomy (hx : x.isNaN = false) (hy : y.isNaN = false) :
    x.lt y = true ∨ x.eq y = true ∨ y.lt x = true := by
  simp only [lt_iff, eq_iff, hx, hy, true_and]
  omega

@[simp] theorem magnitude_neg (x : Binary64) : x.neg.magnitude = x.magnitude := by
  have sign : signBit = 2 ^ 63 := rfl
  rw [magnitude, magnitude, sign, neg, UInt64.toNat_xor, Nat.xor_mod_two_pow]
  exact Nat.xor_zero _

@[simp] theorem isNegative_neg (x : Binary64) : x.neg.isNegative = !x.isNegative := by
  have sign : signBit = 2 ^ 63 := rfl
  have leading : ∀ y : Binary64, y.isNegative = decide (y.bits.toNat / 2 ^ 63 = 1) := by
    intro y
    have := y.bits.toNat_lt
    rw [isNegative, sign, decide_eq_decide]
    omega
  have bound := x.bits.toNat_lt
  rw [leading, leading, neg, UInt64.toNat_xor, Nat.xor_div_two_pow]
  have bit : x.bits.toNat / 2 ^ 63 = 0 ∨ x.bits.toNat / 2 ^ 63 = 1 := by omega
  rcases bit with clear | set
  · rw [clear]; rfl
  · rw [set]; rfl

@[simp] theorem isNaN_neg (x : Binary64) : x.neg.isNaN = x.isNaN := by
  rw [isNaN, magnitude_neg, isNaN]

@[simp] theorem position_neg (x : Binary64) : x.neg.position = -x.position := by
  unfold position
  rw [isNegative_neg, magnitude_neg]
  cases x.isNegative <;> simp

end Binary64

end QuestionSynthesis
