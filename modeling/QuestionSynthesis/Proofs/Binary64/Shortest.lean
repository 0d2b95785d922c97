import QuestionSynthesis.Binary64.Shortest
import QuestionSynthesis.Proofs.Binary64.Decimal

/-!
# Shortest digits

The digits written for a double lie in its rounding interval (`contains_shortest`): the search meets
a grid that is fine enough before it gives up. All of the interval is read as the double that it is
about (`nearest_of_contains`), so the digits are read as this double (`ofDecimal_shortest`).
-/

namespace QuestionSynthesis

namespace Binary64

variable {x : Binary64} {v : ℚ} {k : ℤ} {n : ℕ}

namespace Interval

/-- The number lies in the interval, whose ends only belong to it if it is closed. -/
def Contains (i : Interval) (v : ℚ) : Prop :=
  if i.closed then i.low * 2 ^ i.exponent ≤ v ∧ v ≤ i.high * 2 ^ i.exponent
  else i.low * 2 ^ i.exponent < v ∧ v < i.high * 2 ^ i.exponent

variable (i : Interval) (k : ℤ)

def step : ℕ := Nat.pow 10 k.toNat * Nat.pow 2 (-i.exponent).toNat

def unit : ℕ := Nat.pow 2 i.exponent.toNat * Nat.pow 10 (-k).toNat

def within (d : ℕ) : Bool :=
  if i.closed then i.low * i.unit k ≤ d * i.step k && d * i.step k ≤ i.high * i.unit k
  else i.low * i.unit k < d * i.step k && d * i.step k < i.high * i.unit k

def below : ℕ := i.middle * i.unit k / i.step k

theorem point?_eq : i.point? k =
    match i.within k (i.below k), i.within k (i.below k + 1) with
    | false, false => none
    | true, false => some (i.below k)
    | false, true => some (i.below k + 1)
    | true, true =>
      if 2 * (i.middle * i.unit k) < (2 * i.below k + 1) * i.step k then some (i.below k)
      else some (i.below k + 1) := rfl

def measure : ℚ := 2 ^ (-i.exponent).toNat * 10 ^ (-k).toNat

theorem measure_pos : 0 < i.measure k := by
  unfold measure
  positivity

theorem pow_toNat {b : ℚ} (h : b ≠ 0) (k : ℤ) : b ^ k.toNat = b ^ k * b ^ (-k).toNat := by
  rw [← zpow_natCast, ← zpow_natCast, ← zpow_add₀ h]
  congr 1
  omega

theorem cast_step : (i.step k : ℚ) = 10 ^ k * i.measure k := by
  have power := pow_toNat (b := 10) (by norm_num) k
  unfold step measure
  push_cast [Nat.pow_eq]
  rw [power]
  ring

theorem cast_unit : (i.unit k : ℚ) = 2 ^ i.exponent * i.measure k := by
  have power := pow_toNat (b := 2) (by norm_num) i.exponent
  unfold unit measure
  push_cast [Nat.pow_eq]
  rw [power]
  ring

theorem unit_le_step (a d : ℕ) :
    a * i.unit k ≤ d * i.step k ↔ (a : ℚ) * 2 ^ i.exponent ≤ d * 10 ^ k := by
  rw [← Nat.cast_le (α := ℚ), Nat.cast_mul, Nat.cast_mul, cast_unit, cast_step, ← mul_assoc,
    ← mul_assoc, mul_le_mul_iff_left₀ (i.measure_pos k)]

theorem step_le_unit (a d : ℕ) :
    d * i.step k ≤ a * i.unit k ↔ (d : ℚ) * 10 ^ k ≤ a * 2 ^ i.exponent := by
  rw [← Nat.cast_le (α := ℚ), Nat.cast_mul, Nat.cast_mul, cast_unit, cast_step, ← mul_assoc,
    ← mul_assoc, mul_le_mul_iff_left₀ (i.measure_pos k)]

theorem within_iff (d : ℕ) : i.within k d = true ↔ i.Contains (d * 10 ^ k) := by
  unfold within Contains
  cases i.closed with
  | true => simp [unit_le_step, step_le_unit]
  | false => simp [← not_le, unit_le_step, step_le_unit]

theorem contains_of_point? {i : Interval} {k : ℤ} {d : ℕ} (h : i.point? k = some d) :
    i.Contains ((d : ℚ) * 10 ^ k) := by
  rw [← within_iff]
  rw [point?_eq] at h
  split at h
  · cases h
  · cases h
    assumption
  · cases h
    assumption
  · split_ifs at h <;> cases h <;> assumption

theorem point?_of_fine {i : Interval} {k : ℤ} (lower : i.low < i.middle)
    (fine : (i.middle : ℚ) * 2 ^ i.exponent + 10 ^ k < i.high * 2 ^ i.exponent) :
    (i.point? k).isSome = true := by
  have upper : i.middle * i.unit k + i.step k < i.high * i.unit k := by
    rw [← Nat.cast_lt (α := ℚ)]
    push_cast
    rw [cast_unit, cast_step, ← mul_assoc, ← mul_assoc, ← add_mul]
    exact mul_lt_mul_of_pos_right fine (i.measure_pos k)
  have positive : 0 < i.step k := Nat.mul_pos (Nat.pow_pos (by decide)) (Nat.pow_pos (by decide))
  have low : i.low * i.unit k ≤ i.middle * i.unit k := Nat.mul_le_mul_right _ lower.le
  have past : i.middle * i.unit k < (i.below k + 1) * i.step k := by
    rw [Nat.mul_comm (i.below k + 1)]
    exact Nat.lt_mul_div_succ _ positive
  have last : i.below k * i.step k ≤ i.middle * i.unit k := Nat.div_mul_le_self ..
  have inside : i.within k (i.below k + 1) = true := by
    unfold within
    rw [Nat.add_mul, Nat.one_mul] at past ⊢
    split_ifs
    · simp
      omega
    · simp
      omega
  rw [point?_eq, inside]
  cases i.within k (i.below k) with
  | false => rfl
  | true =>
    dsimp only
    split_ifs <;> rfl

theorem coarsest_contains {i : Interval} {k : ℤ} {j : ℕ} (less : j < n)
    (point : (i.point? (k - j)).isSome = true) :
    i.Contains ((i.coarsest n k).digits * 10 ^ (i.coarsest n k).scale) := by
  induction n generalizing k j with
  | zero => cases less
  | succ n ih =>
    unfold coarsest
    cases found : i.point? k with
    | some d => exact contains_of_point? found
    | none =>
      cases j with
      | zero => simp [found] at point
      | succ j =>
        refine ih (by omega : j < n) ?_
        rwa [show k - 1 - (j : ℤ) = k - (j + 1 : ℕ) by omega]

end Interval

theorem bounds_of_contains {p : ℕ} (exponent : x.binaryExponent = p - 1074)
    (h : x.interval.Contains v) :
    x.interval.low / 4 * 2 ^ p ≤ v * oneUnits ∧
    v * oneUnits ≤ (x.significand + 1 / 2) * 2 ^ p ∧
    (x.significand % 2 = 0 ∨ x.interval.low / 4 * 2 ^ p < v * oneUnits ∧
      v * oneUnits < (x.significand + 1 / 2) * 2 ^ p) := by
  have unit := oneUnits_pos
  have high : (x.interval.high : ℚ) / 4 = x.significand + 1 / 2 := by
    simp only [interval]
    push_cast
    ring
  have scaled : ∀ a : ℚ, a / 4 * 2 ^ p = a * 2 ^ x.interval.exponent * oneUnits := by
    intro a
    have power : x.interval.exponent = (p - 2 : ℤ) - 1074 := by
      simp only [interval, exponent]
      ring
    rw [power, zpow_sub_unit, zpow_sub₀ two_ne_zero, zpow_natCast]
    field_simp
    norm_num
  rw [← high, scaled, scaled]
  unfold Interval.Contains at h
  split_ifs at h with even
  · have even : x.significand % 2 = 0 := by simpa [interval] using even
    exact ⟨mul_le_mul_of_nonneg_right h.1 unit.le, mul_le_mul_of_nonneg_right h.2 unit.le,
      .inl even⟩
  · have lower := mul_lt_mul_of_pos_right h.1 unit
    have upper := mul_lt_mul_of_pos_right h.2 unit
    exact ⟨lower.le, upper.le, .inr ⟨lower, upper⟩⟩

theorem nearest_of_contains (finite : x.isFinite = true) (nonzero : x.magnitude ≠ 0)
    (h : x.interval.Contains v) : nearest (v * oneUnits) = x.magnitude := by
  obtain ⟨p, places, split, exponent, -⟩ := exists_significand x
  obtain ⟨lower, upper, tie⟩ := bounds_of_contains exponent h
  have bound : x.magnitude < infinity.magnitude := isFinite_iff.mp finite
  have power : (0 : ℚ) < 2 ^ p := by positivity
  have positive := significand_pos nonzero
  rw [nearest, split]
  suffices rounded (v * oneUnits) = p * hiddenBit + x.significand by
    rw [this, ← split, min_eq_right bound.le]
  by_cases narrow : x.significand = hiddenBit ∧ -1074 < x.binaryExponent
  · have low : (x.interval.low : ℚ) / 4 = hiddenBit - 1 / 4 := by
      have count : x.interval.low = 4 * hiddenBit - 1 := (if_pos narrow).trans (by rw [narrow.1])
      rw [count, Nat.cast_sub (by decide)]
      push_cast
      ring
    rw [low] at lower
    rw [narrow.1] at places upper ⊢
    rcases le_or_gt ((hiddenBit : ℚ) * 2 ^ p) (v * oneUnits) with right | left
    · refine places.rounded_of_near (le_trans ?_ right) upper (.inl rfl) (.inr right)
      gcongr
      norm_num
    · obtain ⟨q, rfl⟩ : ∃ q, p = q + 1 := ⟨p - 1, by omega⟩
      exact rounded_of_binade lower left
  · have low : (x.interval.low : ℚ) / 4 = x.significand - 1 / 2 := by
      have count : x.interval.low = 4 * x.significand - 2 := if_neg narrow
      rw [count, Nat.cast_sub (by omega)]
      push_cast
      ring
    rw [low] at lower tie
    refine places.rounded_of_near lower upper tie (or_iff_not_imp_left.mpr fun high => ?_)
    have above : (hiddenBit : ℚ) + 1 ≤ x.significand := by
      have := places.above.resolve_left high
      exact_mod_cast (by omega : hiddenBit + 1 ≤ x.significand)
    refine le_trans ?_ lower
    gcongr
    linarith

/-- Powers of ten against powers of two, by `2 ^ 93 < 10 ^ 28 < 2 ^ 94`. -/
theorem ten_zpow_lt {a b : ℤ} (h : 0 ≤ a ∧ 94 * a < 28 * b ∨ a ≤ 0 ∧ 93 * a < 28 * b) :
    (10 : ℚ) ^ a < 2 ^ b := by
  have two : ∀ c : ℤ, ((2 : ℚ) ^ c) ^ 28 = 2 ^ (28 * c) := fun c => by
    rw [← zpow_natCast, ← zpow_mul, mul_comm]
    rfl
  have ten : ((10 : ℚ) ^ a) ^ 28 = (10 ^ 28) ^ a := by
    rw [← zpow_natCast, ← zpow_mul, mul_comm, zpow_mul, zpow_natCast]
  refine lt_of_pow_lt_pow_left₀ 28 (zpow_pos two_pos b).le ?_
  rw [ten, two]
  rcases h with ⟨sign, less⟩ | ⟨sign, less⟩
  · calc
      ((10 : ℚ) ^ 28) ^ a ≤ (2 ^ 94) ^ a := zpow_le_zpow_left₀ sign (by norm_num) (by norm_num)
      _ = 2 ^ (94 * a) := by rw [zpow_mul]; rfl
      _ < 2 ^ (28 * b) := zpow_lt_zpow_right₀ (by norm_num) less
  · obtain ⟨k, rfl⟩ : ∃ k : ℕ, a = -k := ⟨(-a).toNat, by omega⟩
    calc
      ((10 : ℚ) ^ 28) ^ (-k : ℤ) = ((10 ^ 28) ^ k)⁻¹ := by rw [zpow_neg, zpow_natCast]
      _ ≤ ((2 ^ 93) ^ k)⁻¹ := by gcongr; norm_num
      _ = 2 ^ (93 * (-k : ℤ)) := by rw [zpow_mul, zpow_neg, zpow_natCast]; rfl
      _ < 2 ^ (28 * b) := zpow_lt_zpow_right₀ (by norm_num) less

theorem contains_shortest (finite : x.isFinite = true) (nonzero : x.magnitude ≠ 0) :
    x.interval.Contains (x.shortest.digits * 10 ^ x.shortest.scale) := by
  obtain ⟨p, places, split, exponent, -⟩ := exists_significand x
  have positive := significand_pos nonzero
  have bound : x.magnitude < 2047 * hiddenBit := by rwa [isFinite_iff, magnitude_infinity] at finite
  have highest : p ≤ 2046 := by
    simp only [hiddenBit] at bound split
    omega
  have places : x.significand.log2 < 53 := (Nat.log2_lt positive.ne').mpr places.below
  have last : 23 < 24 := by decide
  refine Interval.coarsest_contains last (Interval.point?_of_fine ?_ ?_)
  · simp only [interval]
    split_ifs <;> omega
  · have width : (x.interval.high : ℚ) * 2 ^ x.interval.exponent =
        x.interval.middle * 2 ^ x.interval.exponent + 2 ^ (x.interval.exponent + 1) := by
      rw [zpow_add_one₀ two_ne_zero]
      simp only [interval]
      push_cast
      ring
    rw [width, add_lt_add_iff_left]
    refine ten_zpow_lt ?_
    simp only [interval]
    omega

/-- What is written for a number is read as this number. -/
theorem ofDecimal_shortest (finite : x.isFinite = true) (nonzero : x.magnitude ≠ 0) :
    ofDecimal x.shortest.digits x.shortest.scale = signed .positive x.magnitude := by
  rw [ofDecimal_eq, ofUnits, nearest_of_contains finite nonzero (contains_shortest finite nonzero)]

end Binary64

end QuestionSynthesis
