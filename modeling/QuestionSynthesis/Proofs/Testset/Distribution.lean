import QuestionSynthesis.Proofs.Binary64.Decimal
import QuestionSynthesis.Proofs.Testset.Batch

/-!
# Shares of a test set

The rows are shared out by a quotient, a product and a rounding of doubles. As long as the weights
have a finite sum and the number of rows is itself a double, these are exact where it matters
(`counts_fair`): nothing goes to a weight of zero, and equal weights get equal shares up to one row.
Weights whose sum is infinite leave nothing to the simple evolution.
-/

namespace QuestionSynthesis

namespace Distribution

open Binary64

variable {d : Distribution} {w : Binary64} {n : ℕ}

theorem isWeight_iff : isWeight w = true ↔
    w.isFinite = true ∧ (w.units ≠ 0 → w.sign = .positive) := by
  have below : w.isFinite = true → (w.lt zero = true ↔ w.isNegative = true ∧ w.magnitude ≠ 0) := by
    intro finite
    have origin : zero.isNaN = false ∧ zero.position = 0 := by decide
    rw [lt_iff, origin.2, position]
    cases w.isNegative
    · simp [isNaN_of_isFinite finite, origin.1]
    · simp [isNaN_of_isFinite finite, origin.1]
      omega
  rw [isWeight, Bool.and_eq_true]
  refine and_congr_right fun finite => ?_
  have some : w.units ≠ 0 ↔ w.magnitude ≠ 0 := not_congr units_eq_zero_iff
  rw [Bool.not_eq_true', ← Bool.not_eq_true, below finite, some, sign]
  cases w.isNegative <;> simp

structure Valid (d : Distribution) : Prop where
  simple : isWeight d.simple = true
  multi : isWeight d.multiContext = true
  some : d.simple.units ≠ 0 ∨ d.multiContext.units ≠ 0

theorem valid_of_validate (h : d.validate = .ok ()) : d.Valid := by
  unfold validate at h
  split_ifs at h with unfit empty
  simp only [Bool.or_eq_true, not_or, Bool.not_eq_true', Bool.not_eq_false] at unfit
  refine ⟨unfit.1, unfit.2, ?_⟩
  by_contra none
  -- whatever their signs are, two zeros add up to a zero
  have zeros : ∀ s t, ((signed s 0).add (signed t 0)).le zero = true := by
    rintro (_ | _) (_ | _) <;> decide +kernel
  rw [not_or, not_not, not_not, units_eq_zero_iff, units_eq_zero_iff] at none
  have simple := d.simple.eq_signed
  have multi := d.multiContext.eq_signed
  rw [none.1] at simple
  rw [none.2] at multi
  exact empty (by rw [simple, multi]; exact zeros _ _)

theorem Valid.units_pos (h : d.Valid) :
    (1 : ℚ) ≤ d.simple.units + d.multiContext.units := by
  have := h.some
  exact_mod_cast (by omega : 1 ≤ d.simple.units + d.multiContext.units)

theorem Valid.sum (h : d.Valid) :
    d.simple.add d.multiContext = ofUnits (d.simple.units + d.multiContext.units) := by
  obtain ⟨finite, sign⟩ := isWeight_iff.mp h.simple
  obtain ⟨finite', sign'⟩ := isWeight_iff.mp h.multi
  exact add_eq finite finite' sign sign' h.some

def share (d : Distribution) : Binary64 := d.simple.div (d.simple.add d.multiContext)

theorem counts_eq (h : d.validate = .ok ()) (n : ℕ) : d.counts n =
    .ok (min ((ofNat n).mul d.share).roundToWord n,
      n - min ((ofNat n).mul d.share).roundToWord n) := by
  simp only [counts, h]
  rfl

theorem Valid.share_eq (h : d.Valid) (finite : (d.simple.add d.multiContext).isFinite = true) :
    d.share = signed d.simple.sign
      (nearest (d.simple.units / (d.simple.add d.multiContext).units * oneUnits)) := by
  have some : (d.simple.add d.multiContext).units ≠ 0 := by
    rw [h.sum, ne_eq, units_eq_zero_iff, magnitude_ofUnits]
    exact (nearest_pos h.units_pos).ne'
  rw [share, div_eq (isWeight_iff.mp h.simple).1 finite some]
  rw [h.sum, sign_ofUnits]
  cases d.simple.sign <;> rfl

theorem roundToWord_of_share_zero (h : d.share.magnitude = 0) (n : ℕ) :
    ((ofNat n).mul d.share).roundToWord = 0 := by
  have none : ∀ x : Binary64, x.magnitude = 0 → x.roundToWord = 0 := by
    intro x zero
    rw [x.eq_signed, zero]
    cases x.sign <;> decide +kernel
  have finiteShare : d.share.isFinite = true := by
    rw [isFinite_iff, h]
    decide
  cases finite : (ofNat n).isFinite with
  | true =>
    refine none _ ?_
    have product : ((ofNat n).units * d.share.units / oneUnits : ℚ) = 0 := by
      simp [units_eq_zero_iff.mpr h]
    rw [mul_eq finite finiteShare, product, nearest_zero]
    exact magnitude_signed _ (by decide)
  | false =>
    have infinite : (ofNat n).magnitude = infinity.magnitude :=
      magnitude_of_infinite (isNaN_ofInt n) finite
    rw [roundToWord, isNaN_infinity_mul_zero infinite h]
    rfl

theorem Valid.share_of_overflow (h : d.Valid)
    (infinite : (d.simple.add d.multiContext).isFinite = false) : d.share.magnitude = 0 := by
  have number : (d.simple.add d.multiContext).isNaN = false := by simp [h.sum]
  rw [share, div_infinity (isWeight_iff.mp h.simple).1 (magnitude_of_infinite number infinite)]
  exact magnitude_signed _ (by decide)

theorem Valid.share_of_simple_zero (h : d.Valid) (zero : d.simple.units = 0) :
    d.share.magnitude = 0 := by
  cases finite : (d.simple.add d.multiContext).isFinite with
  | true =>
    rw [h.share_eq finite, zero]
    simp [magnitude_signed _ (show 0 < signBit by decide)]
  | false => exact h.share_of_overflow finite

theorem Valid.share_of_exact (h : d.Valid) (nonzero : d.simple.units ≠ 0)
    (finite : (d.simple.add d.multiContext).isFinite = true)
    (exact : (d.simple.add d.multiContext).units = d.simple.units + d.multiContext.units) :
    d.share = ofUnits (d.simple.units / (d.simple.units + d.multiContext.units) * oneUnits) := by
  rw [h.share_eq finite, exact, (isWeight_iff.mp h.simple).2 nonzero, Nat.cast_add, ofUnits]

theorem Valid.share_of_multi_zero (h : d.Valid) (zero : d.multiContext.units = 0) :
    d.share = ofUnits oneUnits := by
  have nonzero : d.simple.units ≠ 0 := h.some.resolve_right (not_not.mpr zero)
  have positive : (d.simple.units : ℚ) ≠ 0 := Nat.cast_ne_zero.mpr nonzero
  have weight := isWeight_iff.mp h.simple
  have sum : d.simple.add d.multiContext = d.simple := by
    rw [h.sum, zero, Nat.cast_zero, add_zero]
    exact (eq_nearest (weight.2 nonzero) weight.1).symm
  rw [h.share_of_exact nonzero (by rw [sum, weight.1]) (by rw [sum, zero, add_zero]), zero,
    Nat.cast_zero, add_zero, div_self positive, one_mul]

theorem Valid.share_of_equal (h : d.Valid)
    (finite : (d.simple.add d.multiContext).isFinite = true)
    (equal : d.simple.units = d.multiContext.units) :
    d.share = ofUnits (oneUnits / 2) := by
  have nonzero : d.simple.units ≠ 0 := by
    have := h.some
    omega
  have positive : (d.simple.units : ℚ) ≠ 0 := Nat.cast_ne_zero.mpr nonzero
  have sum : d.simple.add d.multiContext = ofUnits (2 * d.simple.units : ℕ) := by
    rw [h.sum, ← equal, ← two_mul]
    push_cast
    rfl
  have exact : (d.simple.add d.multiContext).units = d.simple.units + d.multiContext.units := by
    rw [sum] at finite ⊢
    rw [units_ofUnits_double finite, ← equal, two_mul]
  rw [h.share_of_exact nonzero finite exact, ← equal, ← two_mul, div_mul_eq_div_div_swap]
  congr 1
  field_simp

theorem roundToWord_mul {a : ℕ} (hn : n ≤ 2 ^ 53) (ha : a ≤ unitPlaces) :
    ((ofNat n).mul (ofUnits (2 ^ a : ℕ))).roundToWord =
      min wordMax ((2 * (n * 2 ^ a) + oneUnits) / (2 * oneUnits)) := by
  have power : 2 ^ a ≤ oneUnits := by
    rw [oneUnits]
    exact Nat.pow_le_pow_right (by decide) ha
  have bound : ∀ {m}, m ≤ 2 ^ 53 → m * 2 ^ a < unitsAt infinity.magnitude := fun hm =>
    (Nat.mul_le_mul hm power).trans_lt lt_unitsAt_infinity
  have one : 1 ≤ 2 ^ 53 := by decide
  have factor := ofUnits_exact one (bound one)
  rw [one_mul] at factor
  obtain ⟨finite, units⟩ := ofUnits_exact hn (bound hn)
  have count := ofUnits_natCast hn
  have row : ofNat n = ofUnits (n * oneUnits : ℕ) := by
    rw [Nat.cast_mul]
    exact ofInt_natCast n
  have product : (ofNat n).mul (ofUnits (2 ^ a : ℕ)) = ofUnits (n * 2 ^ a : ℕ) := by
    rw [row, mul_eq count.1 factor.1, count.2, factor.2, sign_ofUnits, sign_ofUnits, Nat.cast_mul,
      Nat.cast_mul, mul_right_comm, mul_div_cancel_right₀ _ oneUnits_pos.ne']
    rfl
  rw [product, roundToWord_eq finite (isNegative_ofUnits _), units]

theorem roundToWord_of_share_one (hn : n ≤ 2 ^ 53) (h : d.share = ofUnits oneUnits) :
    ((ofNat n).mul d.share).roundToWord = n := by
  have word : 2 ^ 53 ≤ wordMax := by decide
  have unit : 0 < oneUnits := Nat.two_pow_pos unitPlaces
  have power : d.share = ofUnits (2 ^ unitPlaces : ℕ) := by rw [h, oneUnits]
  have rows : (2 * (n * oneUnits) + oneUnits) / (2 * oneUnits) = n := by
    rw [← mul_assoc, ← Nat.succ_mul, Nat.mul_div_mul_right _ _ unit]
    omega
  rw [power, roundToWord_mul hn le_rfl, ← oneUnits, rows, min_eq_right (hn.trans word)]

theorem roundToWord_of_share_half (hn : n ≤ 2 ^ 53) (h : d.share = ofUnits (oneUnits / 2)) :
    ((ofNat n).mul d.share).roundToWord = (n + 1) / 2 := by
  have word : 2 ^ 53 ≤ wordMax := by decide
  obtain ⟨a, ha⟩ : ∃ a, unitPlaces = a + 1 := ⟨1073, unitPlaces_eq⟩
  have twice : oneUnits = 2 * 2 ^ a := by rw [oneUnits, ha, Nat.pow_succ']
  have half : ((2 * 2 ^ a : ℕ) : ℚ) / 2 = (2 ^ a : ℕ) := by
    rw [Nat.cast_mul, Nat.cast_ofNat, mul_div_cancel_left₀ _ two_ne_zero]
  have power : d.share = ofUnits (2 ^ a : ℕ) := by rw [h, twice, half]
  have rows : (2 * (n * 2 ^ a) + 2 * 2 ^ a) / (2 * (2 * 2 ^ a)) = (n + 1) / 2 := by
    rw [← Nat.mul_add, Nat.mul_div_mul_left _ _ two_pos, ← Nat.succ_mul,
      Nat.mul_div_mul_right _ _ (Nat.two_pow_pos a)]
  rw [power, roundToWord_mul hn (by omega), twice, rows, min_eq_right (by omega)]

/-- Each weight gets its due of `n` rows, as far as the sum of the weights and `n` are doubles. -/
theorem counts_fair (valid : d.validate = .ok ()) (n : ℕ) :
    ∃ simple multi, d.counts n = .ok (simple, multi) ∧ simple + multi = n ∧
      (d.simple.eq zero = true → simple = 0) ∧
      (d.multiContext.eq zero = true → n ≤ 2 ^ 53 → multi = 0) ∧
      (d.simple.eq d.multiContext = true →
        (d.simple.add d.multiContext).isFinite = true → n ≤ 2 ^ 53 →
          simple ≤ multi + 1 ∧ multi ≤ simple + 1) ∧
      ((d.simple.add d.multiContext).isFinite = false → simple = 0) := by
  have h := valid_of_validate valid
  refine ⟨_, _, counts_eq valid n, by omega, fun weight => ?_, fun weight hn => ?_,
    fun equal finite hn => ?_, fun infinite => ?_⟩
  · have share := h.share_of_simple_zero (units_eq_zero_iff.mpr (magnitude_of_eq weight))
    rw [roundToWord_of_share_zero share, Nat.zero_min]
  · have share := h.share_of_multi_zero (units_eq_zero_iff.mpr (magnitude_of_eq weight))
    rw [roundToWord_of_share_one hn share, min_self, Nat.sub_self]
  · have share := h.share_of_equal finite (congrArg unitsAt (magnitude_of_eq equal))
    rw [roundToWord_of_share_half hn share]
    omega
  · rw [roundToWord_of_share_zero (h.share_of_overflow infinite), Nat.zero_min]

theorem counts_fair_default :
    validate {} = .ok () ∧ ∃ simple multi, counts {} 9 = .ok (simple, multi) ∧
      simple + multi = 9 ∧ simple ≤ multi + 1 ∧ multi ≤ simple + 1 := by
  have valid : validate {} = .ok () := by decide +kernel
  obtain ⟨simple, multi, shares, total, -, -, near, -⟩ := counts_fair valid 9
  exact ⟨valid, simple, multi, shares, total,
    near (by decide) (by decide +kernel) (by decide)⟩

/-- Two weights of `10 ^ 308` are equal and finite, but their sum is infinite. -/
theorem overflow_starves_simple :
    let w : Binary64 := ⟨0x7fe1ccf385ebc8a0⟩
    w = ofDecimal 1 308 ∧ validate ⟨w, w⟩ = .ok () ∧ counts ⟨w, w⟩ 10 = .ok (0, 10) := by
  decide +kernel

end Distribution

end QuestionSynthesis
