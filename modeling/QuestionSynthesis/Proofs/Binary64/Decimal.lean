import QuestionSynthesis.Proofs.Binary64.Arithmetic
import QuestionSynthesis.Proofs.Binary64.Order

/-!
# Decimal numbers as doubles

A decimal number becomes the double nearest to it (`ofDecimal_eq`), whichever way it takes: by exact
powers of ten, by a rounded product or quotient, or past the cut-offs beyond which it is infinite or
vanishes. For a short run of digits a product or a quotient does it, rounded once (`mul_power`,
`div_power`). Whole numbers keep their order as doubles (`position_ofInt_mono`), and those below
`2 ^ 53` stay apart from all others (`position_ofInt_lt`).
-/

namespace QuestionSynthesis

namespace Binary64

open Float.Model (Format UnpackedFloat)
open Float.Model.UnpackedFloat (Sign)

variable {x : Binary64} {u : ℚ} {m n k : ℕ} {e : ℤ}

theorem nearest_lt_signBit (u : ℚ) : nearest u < signBit :=
  (min_le_left _ _).trans_lt (by decide)

def ofUnits (u : ℚ) : Binary64 := signed .positive (nearest u)

@[simp] theorem magnitude_ofUnits (u : ℚ) : (ofUnits u).magnitude = nearest u :=
  magnitude_signed _ (nearest_lt_signBit u)

@[simp] theorem sign_ofUnits (u : ℚ) : (ofUnits u).sign = .positive :=
  sign_signed _ (nearest_lt_signBit u)

@[simp] theorem isNegative_ofUnits (u : ℚ) : (ofUnits u).isNegative = false := by
  simpa [sign] using sign_ofUnits u

@[simp] theorem isNaN_ofUnits (u : ℚ) : (ofUnits u).isNaN = false := by
  simp [isNaN, nearest]

@[simp] theorem position_ofUnits (u : ℚ) : (ofUnits u).position = nearest u := by
  simp [position]

theorem ofUnits_exact (h : m ≤ 2 ^ 53) {a : ℕ} (bound : m * 2 ^ a < unitsAt infinity.magnitude) :
    (ofUnits (m * 2 ^ a : ℕ)).isFinite = true ∧ (ofUnits (m * 2 ^ a : ℕ)).units = m * 2 ^ a := by
  obtain ⟨finite, exact⟩ := nearest_exact h bound
  exact ⟨isFinite_iff.mpr (by rwa [magnitude_ofUnits]), by rwa [units, magnitude_ofUnits]⟩

theorem lt_unitsAt_infinity : 2 ^ 53 * oneUnits < unitsAt infinity.magnitude := by
  decide +kernel

theorem nearest_infinite (h : unitsAt infinity.magnitude ≤ u) :
    nearest u = infinity.magnitude := by
  refine le_antisymm (min_le_left _ _) ?_
  rw [← nearest_unitsAt le_rfl]
  exact nearest_mono h

theorem nearest_eq_zero (h : u ≤ 1 / 2) : nearest u = 0 := by
  have floor : ⌊u⌋₊ = 0 := Nat.floor_eq_zero.mpr (by linarith)
  have vanishes : rounded u = 0 := by
    have lowest : place u = 0 := by simp [place, floor]
    rw [rounded, lowest, pow_zero, div_one, nearestEven, floor]
    rcases h.lt_or_eq with below | rfl
    · simp [show u < 2⁻¹ by linarith]
    · norm_num
  rw [nearest, vanishes]
  exact Nat.min_zero _

theorem units_ofUnits_double (finite : (ofUnits (2 * x.units : ℕ)).isFinite = true) :
    (ofUnits (2 * x.units : ℕ)).units = 2 * x.units := by
  obtain ⟨p, places, -, -, units⟩ := exists_significand x
  have twice : 2 * x.units = x.significand * 2 ^ (p + 1) := by
    rw [units]
    ring
  have bound : x.significand * 2 ^ (p + 1) < unitsAt infinity.magnitude := by
    rw [← twice]
    by_contra above
    rw [isFinite_iff, magnitude_ofUnits, nearest_infinite (Nat.cast_le.mpr (not_lt.mp above))]
      at finite
    exact finite.false
  rw [twice]
  exact (ofUnits_exact places.below.le bound).2

theorem nearest_pos (h : 1 ≤ u) : 0 < nearest u := by
  have one : nearest (unitsAt 1) = 1 := nearest_unitsAt (by decide)
  rw [show unitsAt 1 = 1 from rfl, Nat.cast_one] at one
  exact one.ge.trans (nearest_mono h)

theorem ofUnits_natCast (h : m ≤ 2 ^ 53) :
    (ofUnits (m * oneUnits : ℕ)).isFinite = true ∧
      (ofUnits (m * oneUnits : ℕ)).units = m * oneUnits := by
  have bound : m * oneUnits < unitsAt infinity.magnitude :=
    (Nat.mul_le_mul_right _ h).trans_lt lt_unitsAt_infinity
  rw [oneUnits] at bound ⊢
  exact ofUnits_exact h bound

theorem ofFloat_toFloat (h : m < 2 ^ 53) :
    ofFloat m.toUInt64.toFloat = ofUnits (m * oneUnits : ℕ) := by
  have word : m.toUInt64.toNat = m := by
    simp
    omega
  calc
    ofFloat m.toUInt64.toFloat =
        packed (UnpackedFloat.normalize Format.binary64 m.toUInt64.toNat 0 .positive) := rfl
    _ = ofUnits (m * oneUnits : ℕ) := by
      rw [word, packed_normalize, ofUnits, zpow_zero, mul_one, Nat.cast_mul]

theorem lt_size_of_le (hk : k ≤ 22) : k < Float.exactlyRepresentablePowersOfTen.size := by
  simp [Float.exactlyRepresentablePowersOfTen]
  omega

theorem exactPowers : ∀ k (h : k < Float.exactlyRepresentablePowersOfTen.size),
    let y := ofFloat Float.exactlyRepresentablePowersOfTen[k]
    y.isFinite = true ∧ y.isNegative = false ∧ y.units = 10 ^ k * oneUnits := by
  decide +kernel

theorem scaled_units {y : Binary64} (signX : x.sign = .positive) (unitsX : x.units = m * oneUnits)
    (signY : y.sign = .positive) (unitsY : y.units = 10 ^ k * oneUnits) :
    signed (x.sign * y.sign) (nearest (x.units * y.units / oneUnits)) =
        ofUnits (m * 10 ^ k * oneUnits) ∧
      signed (x.sign / y.sign) (nearest (x.units / y.units * oneUnits)) =
        ofUnits (m / 10 ^ k * oneUnits) := by
  have unit := oneUnits_pos
  rw [signX, signY, unitsX, unitsY]
  constructor <;>
  · refine congrArg (fun u => signed .positive (nearest u)) ?_
    push_cast
    field_simp

theorem power_units_ne_zero (h : x.units = 10 ^ k * oneUnits) : x.units ≠ 0 := by
  rw [h]
  exact Nat.mul_ne_zero (pow_ne_zero _ (by decide)) (Nat.cast_ne_zero.mp oneUnits_pos.ne')

theorem ofScientific_small (h : m < 2 ^ 53) (hk : k ≤ 22) :
    ofFloat (Float.ofScientific m false k) = ofUnits (m * 10 ^ k * oneUnits) ∧
      ofFloat (Float.ofScientific m true k) = ofUnits (m / 10 ^ k * oneUnits) := by
  obtain ⟨finiteX, unitsX⟩ := ofUnits_natCast h.le
  have size := lt_size_of_le hk
  obtain ⟨finiteY, positiveY, unitsY⟩ := exactPowers k size
  have signY : (ofFloat Float.exactlyRepresentablePowersOfTen[k]).sign = .positive := by
    simp [sign, positiveY]
  obtain ⟨scaledUp, scaledDown⟩ := scaled_units (sign_ofUnits _) unitsX signY unitsY
  have product := unpacked_mul finiteX finiteY
  have quotient := unpacked_div finiteX finiteY (power_units_ne_zero unitsY)
  rw [scaledUp, ← ofFloat_toFloat h] at product
  rw [scaledDown, ← ofFloat_toFloat h] at quotient
  rw [Float.ofScientific, Float.ofScientific, dif_pos ⟨h, hk⟩, dif_pos ⟨h, hk⟩]
  exact ⟨product, quotient⟩

theorem packed_ofScientific (positive : 0 < m) (high : e ≤ 400) (low : -(m.log2 + 400) ≤ e) :
    packed (UnpackedFloat.ofScientific Format.binary64 m e) = ofUnits (m * 10 ^ e * oneUnits) := by
  have capacity : (2 : ℤ) ^ Format.binary64.exponentBits = 2048 := by decide
  simp only [UnpackedFloat.ofScientific, capacity]
  rw [dif_neg positive.ne', if_neg (by omega), if_neg (by omega)]
  split_ifs with whole
  · obtain ⟨k, rfl⟩ := Int.eq_ofNat_of_zero_le whole
    have shifted : m <<< Format.binary64.mantissaBits = m * 2 ^ 53 := Nat.shiftLeft_eq ..
    have pos : 0 < m * 2 ^ 53 := by positivity
    have places : 53 ≤ (m * 2 ^ 53 * 10 ^ k).log2 := by
      refine (Nat.le_log2 (by positivity)).mpr ?_
      nlinarith [Nat.one_le_pow k 10 (by decide)]
    simp only [shifted, Int.toNat_natCast]
    refine (packed_mul pos (by positivity) (.inl (by omega))).trans
      (congrArg (fun u => signed .positive (nearest u)) ?_)
    have back : (2 : ℚ) ^ (-(Format.binary64.mantissaBits : ℤ)) = (2 ^ 53)⁻¹ := by
      rw [zpow_neg, zpow_natCast]
      rfl
    rw [back, zpow_natCast]
    push_cast
    field_simp
    norm_num
  · obtain ⟨k, rfl⟩ : ∃ k : ℕ, e = -k := ⟨(-e).toNat, by omega⟩
    simp only [neg_neg, Int.toNat_natCast]
    refine (packed_div positive (by positivity)).trans
      (congrArg (fun u => signed .positive (nearest u)) ?_)
    push_cast
    simp [div_eq_mul_inv]

/-- No double reaches `10 ^ 400`, and `10 ^ -401` is not a quarter of a unit. -/
theorem exists_overflow : ∃ k : ℕ, k ≤ 400 ∧ unitsAt infinity.magnitude ≤ 10 ^ k * oneUnits :=
  ⟨400, le_rfl, by decide +kernel⟩

theorem exists_underflow : ∃ k : ℕ, k ≤ 401 ∧ 4 * oneUnits ≤ 10 ^ k :=
  ⟨401, le_rfl, by decide +kernel⟩

theorem ten_zpow_pos (e : ℤ) : (0 : ℚ) < 10 ^ e := zpow_pos (by norm_num) e

theorem nearest_of_high (positive : 0 < m) (high : 400 < e) :
    nearest (m * 10 ^ e * oneUnits) = infinity.magnitude := by
  obtain ⟨k, bound, large⟩ := exists_overflow
  have some : (1 : ℚ) ≤ m := by exact_mod_cast positive
  have power : (10 : ℚ) ^ (k : ℤ) ≤ m * 10 ^ e :=
    (zpow_le_zpow_right₀ (by norm_num) (by omega)).trans
      (le_mul_of_one_le_left (ten_zpow_pos e).le some)
  refine nearest_infinite ?_
  calc
    (unitsAt infinity.magnitude : ℚ) ≤ (10 ^ k * oneUnits : ℕ) := Nat.cast_le.mpr large
    _ = 10 ^ (k : ℤ) * oneUnits := by
      rw [zpow_natCast, Nat.cast_mul, Nat.cast_pow, Nat.cast_ofNat]
    _ ≤ m * 10 ^ e * oneUnits := mul_le_mul_of_nonneg_right power oneUnits_pos.le

theorem nearest_of_low (low : e < -(m.log2 + 400 : ℕ)) : nearest (m * 10 ^ e * oneUnits) = 0 := by
  obtain ⟨k, bound, large⟩ := exists_underflow
  have unit : (oneUnits : ℚ) ≤ 10 ^ (k : ℤ) / 4 := by
    have := Nat.cast_le (α := ℚ).mpr large
    rw [Nat.cast_mul, Nat.cast_pow, Nat.cast_ofNat, Nat.cast_ofNat] at this
    rwa [zpow_natCast, le_div_iff₀ (by norm_num), mul_comm]
  have digits : (m : ℚ) ≤ 2 * 10 ^ (m.log2 : ℤ) := by
    have places : m ≤ 2 * 10 ^ m.log2 := by
      calc
        m ≤ 2 ^ (m.log2 + 1) := Nat.lt_log2_self.le
        _ = 2 * 2 ^ m.log2 := Nat.pow_succ'
        _ ≤ 2 * 10 ^ m.log2 := by gcongr; decide
    rw [zpow_natCast]
    exact_mod_cast places
  refine nearest_eq_zero ?_
  calc
    (m : ℚ) * 10 ^ e * oneUnits ≤ 2 * 10 ^ (m.log2 : ℤ) * 10 ^ e * (10 ^ (k : ℤ) / 4) :=
      mul_le_mul (mul_le_mul_of_nonneg_right digits (ten_zpow_pos e).le) unit oneUnits_pos.le
        (mul_nonneg (mul_nonneg two_pos.le (ten_zpow_pos _).le) (ten_zpow_pos e).le)
    _ = 10 ^ ((m.log2 : ℤ) + e + k) * (1 / 2) := by
      rw [zpow_add₀ (by norm_num), zpow_add₀ (by norm_num)]
      ring
    _ ≤ 10 ^ (0 : ℤ) * (1 / 2) := by gcongr <;> first | omega | norm_num
    _ = 1 / 2 := by norm_num

theorem ofScientific_up (positive : 0 < m) (high : k ≤ 400) :
    ofFloat (Float.ofScientific m false k) = ofUnits (m * 10 ^ (k : ℤ) * oneUnits) := by
  by_cases small : m < 2 ^ 53 ∧ k ≤ 22
  · rw [(ofScientific_small small.1 small.2).1, zpow_natCast]
  · rw [← packed_ofScientific positive (by omega) (by omega), Float.ofScientific, dif_neg small]
    rfl

theorem ofScientific_down (positive : 0 < m) (low : k ≤ m.log2 + 400) :
    ofFloat (Float.ofScientific m true k) = ofUnits (m * 10 ^ (-k : ℤ) * oneUnits) := by
  by_cases small : m < 2 ^ 53 ∧ k ≤ 22
  · rw [(ofScientific_small small.1 small.2).2, zpow_neg, zpow_natCast, div_eq_mul_inv]
  · have exponent : (-k : ℤ) = Int.negOfNat k := Int.negOfNat_eq.symm
    rw [← packed_ofScientific positive (by omega) (by omega), Float.ofScientific, dif_neg small,
      exponent]
    rfl

/-- A decimal number is read as the double nearest to it. -/
theorem ofDecimal_eq (m : ℕ) (e : ℤ) : ofDecimal m e = ofUnits (m * 10 ^ e * oneUnits) := by
  unfold ofDecimal
  split_ifs with zero high low
  · rw [zero, Nat.cast_zero, zero_mul, zero_mul, ofUnits, nearest_zero]
    decide
  · rw [ofUnits, nearest_of_high (Nat.pos_of_ne_zero zero) high]
    decide
  · rw [ofUnits, nearest_of_low low]
    decide
  · have positive := Nat.pos_of_ne_zero zero
    cases e with
    | ofNat k => exact ofScientific_up positive (by simpa using high)
    | negSucc k => exact ofScientific_down positive (by omega)

theorem ofDecimal_congr {m' : ℕ} {e' : ℤ} (h : (m * 10 ^ e : ℚ) = m' * 10 ^ e') :
    ofDecimal m e = ofDecimal m' e' := by
  rw [ofDecimal_eq, ofDecimal_eq, h]

theorem ofDecimal_power (hk : k ≤ 22) : (ofDecimal 1 k).isFinite = true ∧
    (ofDecimal 1 k).sign = .positive ∧ (ofDecimal 1 k).units = 10 ^ k * oneUnits := by
  have size := lt_size_of_le hk
  obtain ⟨finite, positive, units⟩ := exactPowers k size
  have sign : (ofFloat Float.exactlyRepresentablePowersOfTen[k]).sign = .positive := by
    simp [Binary64.sign, positive]
  have power : ofDecimal 1 k = ofFloat Float.exactlyRepresentablePowersOfTen[k] := by
    rw [eq_nearest sign finite, units, ofDecimal_eq, ofUnits]
    push_cast
    rw [one_mul, zpow_natCast]
  rw [power]
  exact ⟨finite, sign, units⟩

theorem ofNat_exact (h : m < 2 ^ 53) : (ofNat m).isFinite = true ∧
    (ofNat m).sign = .positive ∧ (ofNat m).units = m * oneUnits := by
  obtain ⟨finite, units⟩ := ofUnits_natCast h.le
  have whole : ofNat m = ofUnits (m * oneUnits : ℕ) := by
    rw [ofNat, ofDecimal_eq, zpow_zero, mul_one, Nat.cast_mul]
  rw [whole]
  exact ⟨finite, sign_ofUnits _, units⟩

theorem mul_power (h : m < 2 ^ 53) (hk : k ≤ 22) :
    (ofNat m).mul (ofDecimal 1 k) = ofDecimal m k := by
  obtain ⟨finiteX, signX, unitsX⟩ := ofNat_exact h
  obtain ⟨finiteY, signY, unitsY⟩ := ofDecimal_power hk
  rw [mul_eq finiteX finiteY, (scaled_units signX unitsX signY unitsY).1, ofDecimal_eq,
    zpow_natCast]

theorem div_power (h : m < 2 ^ 53) (hk : k ≤ 22) :
    (ofNat m).div (ofDecimal 1 k) = ofDecimal m (-k) := by
  obtain ⟨finiteX, signX, unitsX⟩ := ofNat_exact h
  obtain ⟨finiteY, signY, unitsY⟩ := ofDecimal_power hk
  rw [div_eq finiteX finiteY (power_units_ne_zero unitsY),
    (scaled_units signX unitsX signY unitsY).2, ofDecimal_eq, zpow_neg, zpow_natCast,
    div_eq_mul_inv]

theorem isFinite_ofDecimal (h : m < 2 ^ 53) (hk : k ≤ 22) : (ofDecimal m k).isFinite = true := by
  have bound : 1 * 2 ^ (127 + unitPlaces) < unitsAt infinity.magnitude := by decide +kernel
  have largest := (nearest_exact (Nat.one_le_two_pow (n := 53)) bound).1
  have small : m * 10 ^ k ≤ 2 ^ 127 := by
    calc m * 10 ^ k ≤ 2 ^ 53 * 10 ^ 22 := Nat.mul_le_mul h.le (Nat.pow_le_pow_right (by decide) hk)
      _ ≤ 2 ^ 127 := by decide
  rw [isFinite_iff, ofDecimal_eq, magnitude_ofUnits, zpow_natCast]
  refine lt_of_le_of_lt (nearest_mono ?_) largest
  rw [one_mul, pow_add, ← oneUnits]
  exact_mod_cast Nat.mul_le_mul_right oneUnits small

theorem ofInt_natCast (n : ℕ) : ofInt n = ofUnits (n * oneUnits) := by
  change ofDecimal n 0 = _
  rw [ofDecimal_eq, zpow_zero, mul_one]

theorem ofInt_neg {n : ℕ} (positive : 0 < n) : ofInt (-n) = (ofUnits (n * oneUnits)).neg := by
  obtain ⟨k, rfl⟩ := Nat.exists_eq_succ_of_ne_zero positive.ne'
  rw [← ofInt_natCast]
  rfl

theorem isNaN_ofInt (n : ℤ) : (ofInt n).isNaN = false := by
  obtain ⟨k, rfl | rfl⟩ := n.eq_nat_or_neg
  · simp [ofInt_natCast]
  · rcases k.eq_zero_or_pos with rfl | positive
    · decide
    · simp [ofInt_neg positive]

/-- One of the two numbers of units is zero. -/
theorem position_ofInt (n : ℤ) : (ofInt n).position =
    (nearest (n.toNat * oneUnits) : ℤ) - nearest ((-n).toNat * oneUnits) := by
  obtain ⟨k, rfl | rfl⟩ := n.eq_nat_or_neg
  · simp [ofInt_natCast]
  · rcases k.eq_zero_or_pos with rfl | positive
    · have zero : (ofInt 0).position = 0 := by decide
      simp [zero]
    · simp [ofInt_neg positive]

theorem nearest_natCast_mono (h : m ≤ n) : nearest (m * oneUnits) ≤ nearest (n * oneUnits) :=
  nearest_mono (mul_le_mul_of_nonneg_right (Nat.cast_le.mpr h) oneUnits_pos.le)

theorem nearest_natCast_lt (h : m < n) (small : n ≤ 2 ^ 53) :
    nearest (m * oneUnits) < nearest (n * oneUnits) := by
  have exact : ∀ {k : ℕ}, k ≤ 2 ^ 53 → unitsAt (nearest (k * oneUnits)) = k * oneUnits := by
    intro k small
    have := (ofUnits_natCast small).2
    rwa [units, magnitude_ofUnits, Nat.cast_mul] at this
  refine (nearest_natCast_mono h.le).lt_of_ne fun same => h.ne ?_
  have units := exact (h.le.trans small)
  rw [same, exact small] at units
  exact (Nat.eq_of_mul_eq_mul_right (by exact_mod_cast oneUnits_pos) units).symm

theorem position_ofInt_mono {m n : ℤ} (h : m ≤ n) :
    (ofInt m).position ≤ (ofInt n).position := by
  have positive := nearest_natCast_mono (Int.toNat_le_toNat h)
  have negative := nearest_natCast_mono (Int.toNat_le_toNat (neg_le_neg h))
  rw [position_ofInt, position_ofInt]
  omega

theorem position_ofInt_lt {m n : ℤ} (h : m < n) (small : m.natAbs < 2 ^ 53 ∨ n.natAbs < 2 ^ 53) :
    (ofInt m).position < (ofInt n).position := by
  have step : ∀ k : ℤ, -2 ^ 53 ≤ k → k < 2 ^ 53 →
      (ofInt k).position < (ofInt (k + 1)).position := by
    intro k lower upper
    rw [position_ofInt, position_ofInt]
    rcases le_or_gt 0 k with right | left
    · have less := nearest_natCast_lt (m := k.toNat) (n := (k + 1).toNat) (by omega) (by omega)
      rw [show (-k).toNat = 0 by omega, show (-(k + 1)).toNat = 0 by omega]
      omega
    · have less := nearest_natCast_lt (m := (-(k + 1)).toNat) (n := (-k).toNat) (by omega)
        (by omega)
      rw [show k.toNat = 0 by omega, show (k + 1).toNat = 0 by omega]
      omega
  rcases small with small | small
  · exact (step m (by omega) (by omega)).trans_le (position_ofInt_mono (by omega))
  · have last := step (n - 1) (by omega) (by omega)
    rw [sub_add_cancel] at last
    exact (position_ofInt_mono (by omega)).trans_lt last

end Binary64

end QuestionSynthesis
