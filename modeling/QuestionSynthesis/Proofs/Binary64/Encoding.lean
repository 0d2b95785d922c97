import QuestionSynthesis.Proofs.Binary64.Rounding

/-!
# Doubles taken apart

A pattern is a sign and a magnitude (`eq_signed`), and the magnitude counts the binades before its
own and then the places of the number. So it is what the arithmetic of doubles takes a pattern apart
into (`unpacked_finite`), and what it packs the places of a result into (`packed_finite`).
-/

namespace QuestionSynthesis

namespace Binary64

open Float.Model (Format UnpackedFloat)
open Float.Model.UnpackedFloat (Sign packComponents)

variable {x y : Binary64} {p s : ℕ}

theorem magnitude_infinity : infinity.magnitude = 2047 * hiddenBit := by decide

theorem toNat_full : (-1#11 : BitVec 11).toNat = 2047 := by decide

theorem isFinite_iff : x.isFinite = true ↔ x.magnitude < infinity.magnitude := by
  simp [isFinite]

theorem magnitude_of_infinite (number : x.isNaN = false) (infinite : x.isFinite = false) :
    x.magnitude = infinity.magnitude := by
  simp only [isNaN, isFinite, decide_eq_false_iff_not] at number infinite
  omega

def sign (x : Binary64) : Sign := if x.isNegative then .negative else .positive

def signed (sign : Sign) (k : ℕ) : Binary64 := ⟨.ofNat (sign.toBitVec.toNat * signBit + k)⟩

theorem toNat_sign (x : Binary64) : x.sign.toBitVec.toNat = x.bits.toNat / signBit := by
  have bound := x.bits.toNat_lt
  unfold sign isNegative
  split_ifs with h
  · rw [decide_eq_true_eq] at h
    change 1 = _
    simp only [signBit] at *
    omega
  · rw [decide_eq_true_eq] at h
    exact (Nat.div_eq_of_lt (not_le.mp h)).symm

theorem toNat_bits (x : Binary64) :
    x.bits.toNat = x.sign.toBitVec.toNat * signBit + x.magnitude := by
  rw [toNat_sign, magnitude, Nat.mul_comm, Nat.div_add_mod]

theorem magnitude_lt (x : Binary64) : x.magnitude < signBit := Nat.mod_lt _ (by decide)

theorem toNat_signed (sign : Sign) {k : ℕ} (h : k < signBit) :
    (signed sign k).bits.toNat = sign.toBitVec.toNat * signBit + k := by
  have := sign.toBitVec.isLt
  rw [signed, UInt64.toNat_ofNat', Nat.mod_eq_of_lt]
  simp only [signBit] at *
  omega

@[simp] theorem magnitude_signed (sign : Sign) {k : ℕ} (h : k < signBit) :
    (signed sign k).magnitude = k := by
  rw [magnitude, toNat_signed sign h, Nat.mul_comm, Nat.mul_add_mod, Nat.mod_eq_of_lt h]

@[simp] theorem sign_signed (s : Sign) {k : ℕ} (h : k < signBit) : (signed s k).sign = s := by
  unfold sign isNegative
  rw [toNat_signed s h]
  cases s <;> simp [Sign.toBitVec, h]

theorem eq_signed (x : Binary64) : x = signed x.sign x.magnitude := by
  have bits : x.bits.toNat = (signed x.sign x.magnitude).bits.toNat := by
    rw [toNat_signed _ x.magnitude_lt, toNat_bits]
  cases x
  exact congrArg Binary64.mk (UInt64.toNat_inj.mp bits)

theorem eq_of_sign_of_magnitude (sign : x.sign = y.sign) (magnitude : x.magnitude = y.magnitude) :
    x = y := by
  rw [x.eq_signed, y.eq_signed, sign, magnitude]

theorem toNat_append {a b : ℕ} (v : BitVec a) (w : BitVec b) :
    (v ++ w).toNat = v.toNat * 2 ^ b + w.toNat := by
  rw [BitVec.toNat_append, ← Nat.shiftLeft_add_eq_or_of_lt w.isLt, Nat.shiftLeft_eq]

theorem toNat_packComponents (sign : Sign) (e : BitVec 11) (m : BitVec 52) :
    (packComponents Format.binary64 sign e m).toNat =
      sign.toBitVec.toNat * signBit + e.toNat * hiddenBit + m.toNat := by
  change ((sign.toBitVec ++ e) ++ m).toNat = _
  rw [toNat_append, toNat_append]
  simp only [signBit, hiddenBit]
  omega

theorem pack_finite (sign : Sign) (places : Places p s) (positive : 0 < s) :
    (UnpackedFloat.pack Format.binary64 (.finite sign s (p - 1074) positive)).toNat =
      sign.toBitVec.toNat * signBit + min infinity.magnitude (p * hiddenBit + s) := by
  obtain ⟨below, above⟩ := places
  have biased : ((p : ℤ) - 1074 + Format.binary64.exponentBias +
      (Format.binary64.mantissaBitsWithoutImplicit : ℕ)).toNat = p + 1 := by
    simp only [Format.exponentBias]
    omega
  have log : s.log2 + 1 = Format.binary64.mantissaBits ↔ hiddenBit ≤ s := by
    have upper : s.log2 < 53 := (Nat.log2_lt positive.ne').mpr (by rw [hiddenBit_eq] at below; omega)
    have lower := Nat.le_log2 (k := 52) positive.ne'
    rw [hiddenBit_eq, ← lower]
    simp only [Format.mantissaBits]
    omega
  have capacity : 2 ^ Format.binary64.exponentBits = 2048 := rfl
  have one : 0 < hiddenBit := by decide
  unfold UnpackedFloat.pack
  simp only [biased, log, capacity]
  split_ifs with large normal
  · rw [UnpackedFloat.packedInfinity, toNat_packComponents, toNat_full, magnitude_infinity,
      min_eq_left]
    · exact Nat.add_zero _
    · nlinarith [above.resolve_left (by omega)]
  · rw [toNat_packComponents, BitVec.toNat_ofNat, BitVec.toNat_ofNat, magnitude_infinity,
      min_eq_right]
    · rw [hiddenBit_eq] at *
      omega
    · nlinarith
  · rw [toNat_packComponents, BitVec.toNat_ofNat, magnitude_infinity, min_eq_right]
    · rw [hiddenBit_eq] at *
      obtain rfl := above.resolve_right normal
      simp
      omega
    · obtain rfl := above.resolve_right normal
      omega

def unpacked (x : Binary64) : UnpackedFloat := UnpackedFloat.unpack Format.binary64 x.bits.toBitVec

def packed (u : UnpackedFloat) : Binary64 := ⟨(Float.Model.pack u).toBits⟩

theorem packed_of_toNat {u : UnpackedFloat} {sign : Sign} {k : ℕ}
    (h : (UnpackedFloat.pack Format.binary64 u).toNat = sign.toBitVec.toNat * signBit + k)
    (small : k < signBit) : packed u = signed sign k := by
  refine congrArg Binary64.mk (UInt64.toNat_inj.mp ?_)
  exact h.trans (toNat_signed sign small).symm

theorem packed_finite (sign : Sign) (places : Places p s) (positive : 0 < s) :
    packed (.finite sign s (p - 1074) positive) =
      signed sign (min infinity.magnitude (p * hiddenBit + s)) :=
  packed_of_toNat (pack_finite sign places positive)
    ((min_le_left _ _).trans_lt (by decide))

theorem packed_zero (sign : Sign) : packed (.zero sign) = signed sign 0 :=
  packed_of_toNat (by simp [UnpackedFloat.pack, UnpackedFloat.packedZero, toNat_packComponents])
    (by decide)

theorem packed_infinity (sign : Sign) : packed (.infinity sign) = signed sign infinity.magnitude :=
  packed_of_toNat (by
    rw [UnpackedFloat.pack, UnpackedFloat.packedInfinity, toNat_packComponents, toNat_full,
      magnitude_infinity]
    exact Nat.add_zero _) (by decide)

abbrev fraction (x : Binary64) : BitVec 52 :=
  @UnpackedFloat.unpackMantissa Format.binary64 x.bits.toBitVec

abbrev biased (x : Binary64) : BitVec 11 :=
  @UnpackedFloat.unpackExponent Format.binary64 x.bits.toBitVec

theorem toNat_fraction (x : Binary64) : x.fraction.toNat = x.magnitude % hiddenBit := by
  have bits : x.fraction.toNat = x.bits.toNat % hiddenBit := by
    simp [UnpackedFloat.unpackMantissa, BitVec.extractLsb_toNat, hiddenBit]
  rw [bits, toNat_bits]
  simp only [signBit, hiddenBit]
  omega

theorem toNat_biased (x : Binary64) : x.biased.toNat = x.magnitude / hiddenBit := by
  have bits : x.biased.toNat = x.bits.toNat / hiddenBit % 2048 := by
    simp [UnpackedFloat.unpackExponent, BitVec.extractLsb_toNat, Nat.shiftRight_eq_div_pow,
      hiddenBit]
  have bound := x.magnitude_lt
  rw [bits, toNat_bits]
  simp only [signBit, hiddenBit] at *
  omega

theorem unpackSign_eq (x : Binary64) :
    @UnpackedFloat.unpackSign Format.binary64 x.bits.toBitVec = x.sign.toBitVec := by
  have bound := x.bits.toNat_lt
  refine BitVec.eq_of_toNat_eq ?_
  rw [toNat_sign]
  simp [UnpackedFloat.unpackSign, BitVec.extractLsb_toNat, Nat.shiftRight_eq_div_pow, signBit]
  omega

theorem ofBitVec_toBitVec (sign : Sign) : Sign.ofBitVec sign.toBitVec = sign := by
  cases sign <;> rfl

theorem unpacked_infinity (h : x.magnitude = infinity.magnitude) :
    x.unpacked = .infinity x.sign := by
  have full : x.biased = -1#11 := BitVec.eq_of_toNat_eq (by rw [toNat_biased, h]; rfl)
  have empty : x.fraction = 0#52 := BitVec.eq_of_toNat_eq (by rw [toNat_fraction, h]; rfl)
  simp only [unpacked, UnpackedFloat.unpack, unpackSign_eq, ofBitVec_toBitVec, full, empty, if_true]

theorem unpacked_zero (h : x.magnitude = 0) : x.unpacked = .zero x.sign := by
  have first : x.biased = 0#11 := BitVec.eq_of_toNat_eq (by rw [toNat_biased, h]; rfl)
  have empty : x.fraction = 0#52 := BitVec.eq_of_toNat_eq (by rw [toNat_fraction, h]; rfl)
  simp only [unpacked, UnpackedFloat.unpack, unpackSign_eq, ofBitVec_toBitVec, first, empty]
  rfl

theorem unpacked_finite (h : x.magnitude = p * hiddenBit + s) (places : Places p s)
    (positive : 0 < s) (finite : x.isFinite = true) :
    x.unpacked = .finite x.sign s (p - 1074) positive := by
  obtain ⟨below, above⟩ := places
  have exponent := x.toNat_biased
  have mantissa := x.toNat_fraction
  have bias : (Format.binary64.exponentBias : ℤ) = 1023 := rfl
  rw [isFinite_iff, magnitude_infinity] at finite
  rw [h] at exponent mantissa finite
  have proper : x.biased ≠ -1#11 := by
    intro full
    rw [full, toNat_full] at exponent
    simp only [hiddenBit] at *
    omega
  simp only [unpacked, UnpackedFloat.unpack, unpackSign_eq, ofBitVec_toBitVec, if_neg proper]
  by_cases normal : hiddenBit ≤ s
  · have set : x.biased ≠ 0#11 := by
      intro first
      rw [first, BitVec.toNat_zero] at exponent
      simp only [hiddenBit] at *
      omega
    rw [if_neg set, UnpackedFloat.finite.injEq, toNat_append, mantissa, exponent, bias]
    simp only [hiddenBit, BitVec.toNat_ofNat] at *
    refine ⟨trivial, ?_, ?_⟩ <;> omega
  · have clear : x.biased = 0#11 := by
      refine BitVec.eq_of_toNat_eq (exponent.trans ?_)
      simp only [hiddenBit, BitVec.toNat_zero] at *
      omega
    have some : x.fraction ≠ 0#52 := by
      intro empty
      rw [empty, BitVec.toNat_zero] at mantissa
      simp only [hiddenBit] at *
      omega
    rw [if_pos clear, dif_neg some, UnpackedFloat.finite.injEq, mantissa, exponent, bias]
    simp only [hiddenBit] at *
    refine ⟨trivial, ?_, ?_⟩ <;> omega

end Binary64

end QuestionSynthesis
