import QuestionSynthesis.Binary64.Decimal
import QuestionSynthesis.Proofs.Binary64.Encoding

/-!
# Exact, then rounded

The arithmetic of doubles computes with mantissas and exponents. What a result loses is kept in two
bits that say on which side of the next half the exact number lies (`Holds`), so that every result
is the double nearest to the exact one (`packed_round`): of products (`mul_eq`), quotients
(`div_eq`) and sums of numbers that are not negative (`add_eq`), all counted in units.
-/

namespace QuestionSynthesis

namespace Binary64

open Float.Model (Format UnpackedFloat totalExponent)
open Float.Model.UnpackedFloat (Sign ExtendedMantissa Accuracy shiftToTargetExponent
  shiftToExponent roundWithAccuracy)

variable {x y : Binary64} {u v : ℚ} {m n p s : ℕ} {e : ℤ}

/-- A mantissa with its two extra bits says on which side of the next half a number lies. -/
inductive Holds : ExtendedMantissa → ℚ → Prop where
  | exact (m : ℕ) : Holds ⟨m, false, false⟩ m
  | below {m : ℕ} {v : ℚ} (lower : m < v) (upper : v < m + 1 / 2) : Holds ⟨m, false, true⟩ v
  | half (m : ℕ) : Holds ⟨m, true, false⟩ (m + 1 / 2)
  | above {m : ℕ} {v : ℚ} (lower : m + 1 / 2 < v) (upper : v < m + 1) : Holds ⟨m, true, true⟩ v

namespace Holds

variable {em : ExtendedMantissa}

theorem bounds (h : Holds em v) : em.mantissa ≤ v ∧ v < em.mantissa + 1 := by
  cases h <;> constructor <;> simp only [] <;> linarith

theorem roundedMantissa (h : Holds em v) : em.roundedMantissa = nearestEven v := by
  have floor : ⌊v⌋₊ = em.mantissa :=
    (Nat.floor_eq_iff (em.mantissa.cast_nonneg.trans h.bounds.1)).mpr h.bounds
  unfold nearestEven
  rw [floor]
  cases h with
  | exact m => simp; rfl
  | below lower upper => rw [if_pos upper]; rfl
  | half m => simp; rfl
  | above lower upper => rw [if_neg lower.le.not_gt, if_pos lower]; rfl

theorem shiftRightOne_even (k : ℕ) (r s : Bool) :
    ExtendedMantissa.shiftRightOne ⟨2 * k, r, s⟩ = ⟨k, false, r || s⟩ := by
  simp [ExtendedMantissa.shiftRightOne]

theorem shiftRightOne_odd (k : ℕ) (r s : Bool) :
    ExtendedMantissa.shiftRightOne ⟨2 * k + 1, r, s⟩ = ⟨k, true, r || s⟩ := by
  simp [ExtendedMantissa.shiftRightOne]
  omega

theorem shiftRightOne (h : Holds em v) : Holds em.shiftRightOne (v / 2) := by
  obtain ⟨m, r, s⟩ := em
  obtain ⟨k, rfl | rfl⟩ := m.even_or_odd'
  · rw [shiftRightOne_even]
    cases h with
    | exact => simpa using Holds.exact k
    | below lower upper => push_cast at *; exact .below (by linarith) (by linarith)
    | half => push_cast; exact .below (by linarith) (by linarith)
    | above lower upper => push_cast at *; exact .below (by linarith) (by linarith)
  · rw [shiftRightOne_odd]
    cases h with
    | exact =>
      have whole : ((2 * k + 1 : ℕ) : ℚ) / 2 = k + 1 / 2 := by push_cast; ring
      exact whole ▸ .half k
    | below lower upper => push_cast at *; exact .above (by linarith) (by linarith)
    | half => push_cast; exact .above (by linarith) (by linarith)
    | above lower upper => push_cast at *; exact .above (by linarith) (by linarith)

theorem shiftRight (h : Holds em v) (k : ℕ) : Holds (em >>> k) (v / 2 ^ k) := by
  change Holds (k.repeat ExtendedMantissa.shiftRightOne em) _
  induction k with
  | zero => simpa [Nat.repeat] using h
  | succ k ih =>
    rw [Nat.repeat, pow_succ, ← div_div]
    exact ih.shiftRightOne

end Holds

theorem targetExponent_eq (m : ℕ) (e : ℤ) :
    Format.binary64.targetExponent (totalExponent m e) = (m.log2 + e + 1022).toNat - 1074 := by
  simp only [Format.targetExponent, totalExponent, Format.mantissaBits, Format.minExponent]
  norm_num
  omega

theorem shiftToTargetExponent_eq {acc : Accuracy} {k : ℕ} (h : (m.log2 + e + 1022).toNat = p)
    (shift : e + k = p - 1074) :
    shiftToTargetExponent Format.binary64 m e acc =
      (ExtendedMantissa.ofMantissaAndAccuracy m acc >>> k, (p : ℤ) - 1074) := by
  have amount : ((p : ℤ) - 1074 - e).toNat = k := by omega
  simp only [shiftToTargetExponent, targetExponent_eq, h, shiftToExponent, amount, shift]

theorem shiftToTargetExponent_places (places : Places p s) :
    shiftToTargetExponent Format.binary64 s (p - 1074) .exact =
      (⟨s, false, false⟩, (p : ℤ) - 1074) := by
  obtain ⟨below, above⟩ := places
  refine shiftToTargetExponent_eq (k := 0) ?_ (by omega)
  rcases Nat.eq_zero_or_pos s with rfl | positive
  · obtain rfl := above.resolve_right (by decide)
    decide
  · have upper : s.log2 < 53 := (Nat.log2_lt positive.ne').mpr below
    have lower : p = 0 ∨ 52 ≤ s.log2 := above.imp_right (Nat.le_log2 positive.ne').mpr
    omega

theorem shiftToTargetExponent_carry (p : ℕ) :
    shiftToTargetExponent Format.binary64 (2 * hiddenBit) (p - 1074) .exact =
      (⟨hiddenBit, false, false⟩, ((p + 1 : ℕ) : ℤ) - 1074) := by
  have log : (2 * hiddenBit).log2 = 53 := Nat.log2_two_pow (n := 53)
  exact shiftToTargetExponent_eq (k := 1) (by omega) (by omega)

theorem roundWithAccuracy_eq {acc : Accuracy} {sign : Sign} {em : ExtendedMantissa}
    (shifted : shiftToTargetExponent Format.binary64 m e acc = (em, (p : ℤ) - 1074))
    (below : em.roundedMantissa ≤ 2 * hiddenBit)
    (above : p = 0 ∨ hiddenBit ≤ em.roundedMantissa) :
    packed (roundWithAccuracy Format.binary64 sign m e acc) =
      signed sign (min infinity.magnitude (p * hiddenBit + em.roundedMantissa)) := by
  have one : 0 < hiddenBit := by decide
  unfold roundWithAccuracy
  rw [shifted]
  dsimp only
  generalize em.roundedMantissa = r at *
  rcases below.lt_or_eq with below | rfl
  · rw [shiftToTargetExponent_places ⟨below, above⟩]
    dsimp only
    split_ifs with zero
    · obtain rfl := above.resolve_right (by omega)
      simp [zero, packed_zero]
    · exact packed_finite sign ⟨below, above⟩ (Nat.pos_of_ne_zero zero)
  · rw [shiftToTargetExponent_carry]
    dsimp only
    rw [dif_neg one.ne', packed_finite sign ⟨by omega, .inr le_rfl⟩ one]
    have carried : (p + 1) * hiddenBit + hiddenBit = p * hiddenBit + 2 * hiddenBit := by ring
    rw [carried]

/-- The result of rounding is the double nearest to the number that is rounded. -/
theorem packed_round {acc : Accuracy} {sign : Sign}
    (h : Holds (ExtendedMantissa.ofMantissaAndAccuracy m acc) v) (fits : 52 ≤ m.log2 ∨ e ≤ -1074) :
    packed (roundWithAccuracy Format.binary64 sign m e acc) =
      signed sign (nearest (v * 2 ^ e * oneUnits)) := by
  rw [mul_assoc, zpow_mul_oneUnits]
  obtain ⟨p, hp⟩ : ∃ p, (m.log2 + e + 1022).toNat = p := ⟨_, rfl⟩
  obtain ⟨k, hk⟩ : ∃ k : ℕ, e + k = p - 1074 := ⟨(p - 1074 - e).toNat, by omega⟩
  have cut : v / 2 ^ k = v * 2 ^ (e + 1074) / 2 ^ p := by
    rw [show e + 1074 = (p : ℤ) - k by omega, zpow_sub₀ two_ne_zero, zpow_natCast, zpow_natCast]
    field_simp
  have hplace : place (v * 2 ^ (e + 1074)) = p := by
    have mantissa : ∀ acc, (ExtendedMantissa.ofMantissaAndAccuracy m acc).mantissa = m := by
      rintro (_ | _ | _ | _) <;> rfl
    obtain ⟨lower, upper⟩ := h.bounds
    rw [mantissa] at lower upper
    have scale : (0 : ℚ) < 2 ^ (e + 1074) := zpow_pos (by norm_num) _
    refine place_eq ?_ (or_iff_not_imp_left.mpr fun nonzero => ?_)
    · have whole : ((m : ℚ) + 1) ≤ 2 ^ (m.log2 + 1) := by exact_mod_cast Nat.lt_log2_self (n := m)
      calc
        v * 2 ^ (e + 1074) < 2 ^ (m.log2 + 1) * 2 ^ (e + 1074) := by gcongr; linarith
        _ = 2 ^ ((m.log2 + 1 : ℕ) + (e + 1074) : ℤ) := by
          rw [← zpow_natCast, ← zpow_add₀ two_ne_zero]
        _ ≤ 2 ^ ((p + 53 : ℕ) : ℤ) := zpow_le_zpow_right₀ (by norm_num) (by omega)
        _ = 2 ^ (p + 53) := zpow_natCast _ _
    · have leading : m ≠ 0 := by
        rintro rfl
        have : Nat.log2 0 = 0 := by decide
        omega
      calc
        (2 : ℚ) ^ (p + 52) = 2 ^ ((m.log2 : ℤ) + (e + 1074)) := by
          rw [← zpow_natCast]
          congr 1
          omega
        _ = 2 ^ m.log2 * 2 ^ (e + 1074) := by rw [← zpow_natCast, ← zpow_add₀ two_ne_zero]
        _ ≤ v * 2 ^ (e + 1074) := by
          gcongr
          exact le_trans (mod_cast Nat.log2_self_le leading) lower
  have held := (h.shiftRight k).roundedMantissa
  rw [cut, ← hplace] at held
  rw [roundWithAccuracy_eq (shiftToTargetExponent_eq hp hk), held, nearest, rounded, hplace]
  · exact held.trans_le (places_le _)
  · rw [held, ← hplace]
    exact or_iff_not_imp_left.mpr le_places

@[simp] theorem nearest_zero : nearest 0 = 0 := by
  have zero : nearest (unitsAt 0) = 0 := nearest_unitsAt (Nat.zero_le _)
  rwa [show unitsAt 0 = 0 from rfl, Nat.cast_zero] at zero

def units (x : Binary64) : ℕ := unitsAt x.magnitude

theorem units_eq_zero_iff : x.units = 0 ↔ x.magnitude = 0 := by
  constructor
  · intro zero
    rw [← rounded_unitsAt x.magnitude, show unitsAt x.magnitude = unitsAt 0 from zero,
      rounded_unitsAt]
  · intro zero
    rw [units, zero]
    rfl

theorem exists_significand (x : Binary64) : ∃ p, Places p x.significand ∧
    x.magnitude = p * hiddenBit + x.significand ∧ x.binaryExponent = p - 1074 ∧
    x.units = x.significand * 2 ^ p := by
  have split := Nat.div_add_mod x.magnitude hiddenBit
  have first := Nat.mod_lt x.magnitude (show 0 < hiddenBit by decide)
  unfold units unitsAt significand binaryExponent
  split_ifs with small
  · exact ⟨0, ⟨by omega, .inl rfl⟩, by omega, by rfl, by simp⟩
  · have binade : 1 ≤ x.magnitude / hiddenBit :=
      (Nat.one_le_div_iff (by decide)).mpr (not_lt.mp small)
    obtain ⟨b, hb⟩ := Nat.exists_eq_add_of_le binade
    rw [hb] at split ⊢
    refine ⟨b, ⟨by omega, .inr (by omega)⟩, ?_, by omega, by simp⟩
    linarith

theorem significand_pos (nonzero : x.magnitude ≠ 0) : 0 < x.significand := by
  obtain ⟨p, places, split, -, -⟩ := exists_significand x
  rcases Nat.eq_zero_or_pos x.significand with zero | positive
  · obtain rfl := places.above.resolve_right (by rw [zero]; decide)
    omega
  · exact positive

theorem exists_unpacked (finite : x.isFinite = true) (nonzero : x.magnitude ≠ 0) :
    ∃ p s, ∃ positive : 0 < s, Places p s ∧ x.magnitude = p * hiddenBit + s ∧
      x.unpacked = .finite x.sign s (p - 1074) positive ∧ x.units = s * 2 ^ p := by
  obtain ⟨p, s, places, split, value⟩ := exists_places x.magnitude
  have positive : 0 < s := by
    rcases Nat.eq_zero_or_pos s with rfl | positive
    · obtain rfl := places.above.resolve_right (by decide)
      exact absurd split (by simpa using nonzero)
    · exact positive
  exact ⟨p, s, positive, places, split, unpacked_finite split places positive finite, value⟩

theorem packed_unpacked (h : x.isNaN = false) : packed x.unpacked = x := by
  have bound : x.magnitude ≤ infinity.magnitude := by simpa [isNaN] using h
  conv_rhs => rw [x.eq_signed]
  rcases bound.lt_or_eq with finite | infinite
  · rcases Nat.eq_zero_or_pos x.magnitude with zero | positive
    · rw [unpacked_zero zero, packed_zero, zero]
    · obtain ⟨p, s, positive, places, split, shape, -⟩ :=
        exists_unpacked (isFinite_iff.mpr finite) positive.ne'
      rw [shape, packed_finite _ places, ← split, min_eq_right bound]
  · rw [unpacked_infinity infinite, packed_infinity, infinite]

theorem unpack_toFloat (h : x.isNaN = false) : x.toFloat.toModel.unpack = x.unpacked := by
  have bits : x.toFloat.toModel.toBits = x.bits := congrArg Binary64.bits (packed_unpacked h)
  rw [Float.Model.unpack, bits]
  rfl

theorem holds_exact (m : ℕ) : Holds (ExtendedMantissa.ofMantissaAndAccuracy m .exact) m :=
  .exact m

theorem packed_mul {s₁ s₂ : Sign} {m₁ m₂ : ℕ} {e₁ e₂ : ℤ} (pos₁ : 0 < m₁) (pos₂ : 0 < m₂)
    (fits : 52 ≤ (m₁ * m₂).log2 ∨ e₁ + e₂ ≤ -1074) :
    packed (UnpackedFloat.mul Format.binary64 (.finite s₁ m₁ e₁ pos₁) (.finite s₂ m₂ e₂ pos₂)) =
      signed (s₁ * s₂) (nearest (m₁ * 2 ^ e₁ * (m₂ * 2 ^ e₂) * oneUnits)) := by
  have product : (m₁ * 2 ^ e₁ * (m₂ * 2 ^ e₂) : ℚ) = (m₁ * m₂ : ℕ) * 2 ^ (e₁ + e₂) := by
    rw [zpow_add₀ two_ne_zero]
    push_cast
    ring
  rw [product]
  exact packed_round (holds_exact _) fits

theorem holds_div (m : ℕ) (positive : 0 < n) :
    Holds (ExtendedMantissa.ofMantissaAndAccuracy (m / n)
      (UnpackedFloat.accuracyOfFraction (m % n) n)) (m / n) := by
  have den : (0 : ℚ) < n := by exact_mod_cast positive
  have split : (m : ℚ) / n = (m / n : ℕ) + (m % n : ℕ) / n := by
    have whole : (n : ℚ) * (m / n : ℕ) + (m % n : ℕ) = m := by exact_mod_cast Nat.div_add_mod m n
    rw [div_eq_iff den.ne', add_mul, div_mul_cancel₀ _ den.ne', mul_comm]
    exact whole.symm
  have small : ((m % n : ℕ) : ℚ) / n < 1 := by
    rw [div_lt_one den]
    exact_mod_cast Nat.mod_lt m positive
  rw [split]
  unfold UnpackedFloat.accuracyOfFraction
  split_ifs with whole
  · rw [whole, Nat.cast_zero, zero_div, add_zero]
    exact .exact _
  · have some : 0 < ((m % n : ℕ) : ℚ) / n :=
      div_pos (by exact_mod_cast Nat.pos_of_ne_zero whole) den
    rcases lt_trichotomy (2 * (m % n)) n with less | same | more
    · rw [Nat.compare_eq_lt.mpr less]
      have half : ((m % n : ℕ) : ℚ) / n < 1 / 2 := by
        rw [div_lt_div_iff₀ den two_pos]
        exact_mod_cast (by omega : m % n * 2 < 1 * n)
      exact .below (by linarith) (by linarith)
    · rw [Nat.compare_eq_eq.mpr same]
      have half : ((m % n : ℕ) : ℚ) / n = 1 / 2 := by
        rw [div_eq_div_iff den.ne' two_ne_zero]
        exact_mod_cast (by omega : m % n * 2 = 1 * n)
      rw [half]
      exact .half _
    · rw [Nat.compare_eq_gt.mpr more]
      have half : 1 / 2 < ((m % n : ℕ) : ℚ) / n := by
        rw [div_lt_div_iff₀ two_pos den]
        exact_mod_cast (by omega : 1 * n < m % n * 2)
      exact .above (by linarith) (by linarith)

theorem packed_div {s₁ s₂ : Sign} {m₁ m₂ : ℕ} {e₁ e₂ : ℤ} (pos₁ : 0 < m₁) (pos₂ : 0 < m₂) :
    packed (UnpackedFloat.div Format.binary64 (.finite s₁ m₁ e₁ pos₁) (.finite s₂ m₂ e₂ pos₂)) =
      signed (s₁ / s₂) (nearest (m₁ * 2 ^ e₁ / (m₂ * 2 ^ e₂) * oneUnits)) := by
  simp only [UnpackedFloat.div, UnpackedFloat.divCore, Nat.shiftLeft_eq]
  -- the dividend is shifted until the quotient has places enough
  obtain ⟨t, ht⟩ : ∃ t, min (e₁ - e₂) (Format.binary64.targetExponent
      (totalExponent m₁ e₁ - totalExponent m₂ e₂)) = t := ⟨_, rfl⟩
  obtain ⟨k, hk⟩ : ∃ k : ℕ, e₁ - e₂ - t = k := ⟨(e₁ - e₂ - t).toNat, by omega⟩
  have target : t = min (e₁ - e₂) (max (m₁.log2 - m₂.log2 + (e₁ - e₂) - 53) (-1074)) := by
    rw [← ht]
    simp only [Format.targetExponent, totalExponent, Format.mantissaBits, Format.minExponent]
    norm_num
    omega
  have fits : 52 ≤ (m₁ * 2 ^ k / m₂).log2 ∨ t ≤ -1074 := by
    refine or_iff_not_imp_right.mpr fun high => ?_
    have enough : 53 + m₂.log2 ≤ m₁.log2 + k := by omega
    have quotient : 2 ^ 52 ≤ m₁ * 2 ^ k / m₂ := by
      rw [Nat.le_div_iff_mul_le pos₂]
      calc
        2 ^ 52 * m₂ ≤ 2 ^ 52 * 2 ^ (m₂.log2 + 1) :=
          Nat.mul_le_mul_left _ (Nat.lt_log2_self).le
        _ = 2 ^ (53 + m₂.log2) := by ring
        _ ≤ 2 ^ (m₁.log2 + k) := Nat.pow_le_pow_right (by decide) enough
        _ = 2 ^ m₁.log2 * 2 ^ k := Nat.pow_add ..
        _ ≤ m₁ * 2 ^ k := Nat.mul_le_mul_right _ (Nat.log2_self_le pos₁.ne')
    exact (Nat.le_log2 (by omega)).mpr quotient
  rw [ht, hk, Int.toNat_natCast, packed_round (holds_div _ pos₂) fits]
  congr 3
  have shift : (2 : ℚ) ^ e₁ / 2 ^ e₂ = 2 ^ k * 2 ^ t := by
    rw [← zpow_sub₀ two_ne_zero, ← zpow_natCast, ← zpow_add₀ two_ne_zero]
    congr 1
    omega
  rw [mul_div_mul_comm, shift]
  push_cast
  ring

theorem log2_mul_two_pow (positive : 0 < m) (k : ℕ) : (m * 2 ^ k).log2 = m.log2 + k := by
  refine (Nat.log2_eq_iff (by positivity)).mpr ⟨?_, ?_⟩
  · rw [Nat.pow_add]
    exact Nat.mul_le_mul_right _ (Nat.log2_self_le positive.ne')
  · rw [Nat.add_right_comm, Nat.pow_add]
    exact Nat.mul_lt_mul_of_pos_right Nat.lt_log2_self (by positivity)

theorem packed_roundExact (sign : Sign) (positive : 0 < m) (e : ℤ) :
    packed (UnpackedFloat.round Format.binary64 sign m e) =
      signed sign (nearest (m * 2 ^ e * oneUnits)) := by
  simp only [UnpackedFloat.round, UnpackedFloat.decreaseExponent, targetExponent_eq,
    Nat.shiftLeft_eq]
  obtain ⟨k, hk⟩ : ∃ k, (e - ((m.log2 + e + 1022).toNat - 1074 : ℤ)).toNat = k := ⟨_, rfl⟩
  have log := log2_mul_two_pow positive k
  rw [hk, packed_round (holds_exact _) (by omega)]
  congr 3
  have shift : (2 : ℚ) ^ e = 2 ^ k * 2 ^ (e - k) := by
    rw [← zpow_natCast, ← zpow_add₀ two_ne_zero, add_sub_cancel]
  rw [shift]
  push_cast
  ring

theorem packed_normalize (m : ℕ) (e : ℤ) :
    packed (UnpackedFloat.normalize Format.binary64 m e .positive) =
      signed .positive (nearest (m * 2 ^ e * oneUnits)) := by
  unfold UnpackedFloat.normalize
  rcases Nat.eq_zero_or_pos m with rfl | positive
  · simp [packed_zero]
  · rw [Int.compare_eq_gt.mpr (by exact_mod_cast positive)]
    exact packed_roundExact _ positive e

theorem isNaN_of_isFinite (h : x.isFinite = true) : x.isNaN = false := by
  simp only [isFinite, isNaN, decide_eq_true_eq, decide_eq_false_iff_not] at *
  omega

theorem unpacked_cases (finite : x.isFinite = true) :
    x.units = 0 ∧ x.unpacked = .zero x.sign ∨
      ∃ p s, ∃ positive : 0 < s, Places p s ∧ x.units = s * 2 ^ p ∧
        x.unpacked = .finite x.sign s (p - 1074) positive := by
  by_cases zero : x.magnitude = 0
  · exact .inl ⟨units_eq_zero_iff.mpr zero, unpacked_zero zero⟩
  · obtain ⟨p, s, positive, places, -, shape, units⟩ := exists_unpacked finite zero
    exact .inr ⟨p, s, positive, places, units, shape⟩

theorem unpacked_mul (hx : x.isFinite = true) (hy : y.isFinite = true) :
    packed (UnpackedFloat.mul Format.binary64 x.unpacked y.unpacked) =
      signed (x.sign * y.sign) (nearest (x.units * y.units / oneUnits)) := by
  rcases unpacked_cases hx with ⟨unitsX, shapeX⟩ | ⟨p, s, posX, placesX, unitsX, shapeX⟩ <;>
    rcases unpacked_cases hy with ⟨unitsY, shapeY⟩ | ⟨q, t, posY, placesY, unitsY, shapeY⟩ <;>
    rw [shapeX, shapeY, unitsX, unitsY]
  case inr.inr =>
    have fits : 52 ≤ (s * t).log2 ∨ (p - 1074 : ℤ) + (q - 1074) ≤ -1074 := by
      rcases placesX.above with rfl | full
      · rcases placesY.above with rfl | full
        · exact .inr (by omega)
        · exact .inl ((Nat.le_log2 (by positivity)).mpr (full.trans (Nat.le_mul_of_pos_left _ posX)))
      · exact .inl ((Nat.le_log2 (by positivity)).mpr (full.trans (Nat.le_mul_of_pos_right _ posY)))
    rw [packed_mul posX posY fits]
    congr 2
    have unit := oneUnits_pos
    rw [zpow_sub_unit, zpow_sub_unit]
    simp only [zpow_natCast]
    push_cast
    field_simp
  all_goals simp [UnpackedFloat.mul, packed_zero]

theorem mul_eq (hx : x.isFinite = true) (hy : y.isFinite = true) :
    x.mul y = signed (x.sign * y.sign) (nearest (x.units * y.units / oneUnits)) := by
  rw [← unpacked_mul hx hy, ← unpack_toFloat (isNaN_of_isFinite hx),
    ← unpack_toFloat (isNaN_of_isFinite hy)]
  rfl

theorem unpacked_div (hx : x.isFinite = true) (hy : y.isFinite = true) (nonzero : y.units ≠ 0) :
    packed (UnpackedFloat.div Format.binary64 x.unpacked y.unpacked) =
      signed (x.sign / y.sign) (nearest (x.units / y.units * oneUnits)) := by
  obtain ⟨zero, -⟩ | ⟨q, t, posY, -, unitsY, shapeY⟩ := unpacked_cases hy
  · exact absurd zero nonzero
  rcases unpacked_cases hx with ⟨unitsX, shapeX⟩ | ⟨p, s, posX, -, unitsX, shapeX⟩ <;>
    rw [shapeX, shapeY, unitsX, unitsY]
  · simp [UnpackedFloat.div, packed_zero]
  · rw [packed_div]
    congr 3
    have unit := oneUnits_pos
    rw [zpow_sub_unit, zpow_sub_unit]
    simp only [zpow_natCast]
    push_cast
    field_simp

theorem div_eq (hx : x.isFinite = true) (hy : y.isFinite = true) (nonzero : y.units ≠ 0) :
    x.div y = signed (x.sign / y.sign) (nearest (x.units / y.units * oneUnits)) := by
  rw [← unpacked_div hx hy nonzero, ← unpack_toFloat (isNaN_of_isFinite hx),
    ← unpack_toFloat (isNaN_of_isFinite hy)]
  rfl

theorem eq_nearest (positive : x.sign = .positive) (finite : x.isFinite = true) :
    x = signed .positive (nearest x.units) := by
  have bound : x.magnitude < infinity.magnitude := isFinite_iff.mp finite
  rw [units, nearest_unitsAt bound.le, ← positive]
  exact x.eq_signed

theorem packed_add {q t : ℕ} (posX : 0 < s) (posY : 0 < t) :
    packed (UnpackedFloat.add Format.binary64 (.finite .positive s (p - 1074) posX)
      (.finite .positive t (q - 1074) posY)) =
      signed .positive (nearest ((s * 2 ^ p : ℕ) + (t * 2 ^ q : ℕ))) := by
  obtain ⟨r, hr⟩ : ∃ r, min p q = r := ⟨_, rfl⟩
  obtain ⟨a, ha⟩ : ∃ a, p = r + a := ⟨p - r, by omega⟩
  obtain ⟨b, hb⟩ : ∃ b, q = r + b := ⟨q - r, by omega⟩
  have lower : min (p - 1074 : ℤ) (q - 1074) = r - 1074 := by omega
  have shiftX : (p - 1074 - (r - 1074) : ℤ).toNat = a := by omega
  have shiftY : (q - 1074 - (r - 1074) : ℤ).toNat = b := by omega
  have aligned : UnpackedFloat.add Format.binary64 (.finite .positive s (p - 1074) posX)
      (.finite .positive t (q - 1074) posY) =
      UnpackedFloat.normalize Format.binary64 (s * 2 ^ a + t * 2 ^ b : ℕ) (r - 1074)
        .positive := by
    simp only [UnpackedFloat.add, UnpackedFloat.decreaseExponent, lower, shiftX, shiftY,
      Nat.shiftLeft_eq, Sign.apply, Nat.cast_add]
  have unit := oneUnits_pos
  rw [aligned, packed_normalize, zpow_sub_unit, zpow_natCast, ha, hb]
  congr 2
  push_cast
  field_simp
  ring

/-- Neither number is below zero, and they are not both zero. -/
theorem add_eq (hx : x.isFinite = true) (hy : y.isFinite = true)
    (positiveX : x.units ≠ 0 → x.sign = .positive) (positiveY : y.units ≠ 0 → y.sign = .positive)
    (some : x.units ≠ 0 ∨ y.units ≠ 0) :
    x.add y = signed .positive (nearest (x.units + y.units)) := by
  have sum : x.add y = packed (UnpackedFloat.add Format.binary64 x.unpacked y.unpacked) := by
    rw [← unpack_toFloat (isNaN_of_isFinite hx), ← unpack_toFloat (isNaN_of_isFinite hy)]
    rfl
  rw [sum]
  rcases unpacked_cases hx with ⟨unitsX, shapeX⟩ | ⟨p, s, posX, -, unitsX, shapeX⟩ <;>
    rcases unpacked_cases hy with ⟨unitsY, shapeY⟩ | ⟨q, t, posY, -, unitsY, shapeY⟩
  · simp [unitsX, unitsY] at some
  · have keep : UnpackedFloat.add Format.binary64 x.unpacked y.unpacked = y.unpacked := by
      rw [shapeX, shapeY]
      rfl
    rw [keep, packed_unpacked (isNaN_of_isFinite hy), unitsX, Nat.cast_zero, zero_add]
    exact eq_nearest (positiveY (by rw [unitsY]; positivity)) hy
  · have keep : UnpackedFloat.add Format.binary64 x.unpacked y.unpacked = x.unpacked := by
      rw [shapeX, shapeY]
      rfl
    rw [keep, packed_unpacked (isNaN_of_isFinite hx), unitsY, Nat.cast_zero, add_zero]
    exact eq_nearest (positiveX (by rw [unitsX]; positivity)) hx
  · have signX : x.sign = .positive := positiveX (by rw [unitsX]; positivity)
    have signY : y.sign = .positive := positiveY (by rw [unitsY]; positivity)
    rw [shapeX, shapeY, signX, signY, unitsX, unitsY]
    exact packed_add posX posY

theorem div_infinity (hx : x.isFinite = true) (hy : y.magnitude = infinity.magnitude) :
    x.div y = signed (x.sign / y.sign) 0 := by
  have numberY : y.isNaN = false := by simp [isNaN, hy]
  have quotient : x.div y = packed (UnpackedFloat.div Format.binary64 x.unpacked y.unpacked) := by
    rw [← unpack_toFloat (isNaN_of_isFinite hx), ← unpack_toFloat numberY]
    rfl
  rw [quotient, unpacked_infinity hy]
  rcases unpacked_cases hx with ⟨-, shape⟩ | ⟨p, s, positive, -, -, shape⟩
  · rw [shape, UnpackedFloat.div, packed_zero]
  · rw [shape, UnpackedFloat.div, packed_zero]

theorem isNaN_infinity_mul_zero (hx : x.magnitude = infinity.magnitude) (hy : y.magnitude = 0) :
    (x.mul y).isNaN = true := by
  have numberX : x.isNaN = false := by simp [isNaN, hx]
  have numberY : y.isNaN = false := by simp [isNaN, hy]
  have product : x.mul y = packed (UnpackedFloat.mul Format.binary64 x.unpacked y.unpacked) := by
    rw [← unpack_toFloat numberX, ← unpack_toFloat numberY]
    rfl
  rw [product, unpacked_infinity hx, unpacked_zero hy, UnpackedFloat.mul]
  decide

theorem roundToWord_eq (finite : x.isFinite = true) (positive : x.isNegative = false) :
    x.roundToWord = min wordMax ((2 * x.units + oneUnits) / (2 * oneUnits)) := by
  obtain ⟨p, -, -, exponent, units⟩ := exists_significand x
  have places := unitPlaces_eq
  have unit : 0 < oneUnits := Nat.two_pow_pos unitPlaces
  rw [roundToWord, if_neg (by simp [isNaN_of_isFinite finite, positive]), exponent, units]
  congr 1
  rcases le_or_gt unitPlaces p with whole | fraction
  · obtain ⟨q, rfl⟩ := Nat.exists_eq_add_of_le whole
    have shape : ((unitPlaces + q : ℕ) : ℤ) - 1074 = Int.ofNat q := by
      rw [places]
      simp
    have common : 2 * (x.significand * 2 ^ (unitPlaces + q)) + oneUnits =
        (2 * (x.significand * 2 ^ q) + 1) * oneUnits := by
      rw [oneUnits]
      ring
    rw [shape, common, Nat.mul_div_mul_right _ _ unit, Nat.mul_add_div (by decide)]
    rfl
  · obtain ⟨q, hq⟩ : ∃ q, unitPlaces = p + (q + 1) := ⟨unitPlaces - p - 1, by omega⟩
    have shape : (p : ℤ) - 1074 = Int.negSucc q := by omega
    have split : oneUnits = 2 ^ p * 2 ^ (q + 1) := by rw [oneUnits, hq, Nat.pow_add]
    have common : 2 * (x.significand * 2 ^ p) + oneUnits =
        2 ^ p * (2 * x.significand + 2 ^ (q + 1)) := by
      rw [split]
      ring
    have width : 2 * oneUnits = 2 ^ p * 2 ^ (q + 2) := by
      rw [split]
      ring
    rw [shape, common, width, Nat.mul_div_mul_left _ _ (Nat.two_pow_pos p)]
    rfl

end Binary64

end QuestionSynthesis
