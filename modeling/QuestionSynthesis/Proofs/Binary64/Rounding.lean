import Mathlib
import QuestionSynthesis.Binary64.Basic

/-!
# Rounding

Positive numbers are counted in units of the least positive double, so that every double is a whole
number of units (`unitsAt`) and rounding is a map from the rationals to magnitudes (`nearest`): the
number is cut at the last of its fifty-three places and goes to the nearer neighbour, a tie to the
even one. Rounding keeps the order (`nearest_mono`) and leaves doubles as they are
(`nearest_unitsAt`).
-/

namespace QuestionSynthesis

namespace Binary64

variable {u v : ℚ} {m n p s : ℕ}

def nearestEven (v : ℚ) : ℕ :=
  if v < ⌊v⌋₊ + 1 / 2 then ⌊v⌋₊
  else if ⌊v⌋₊ + 1 / 2 < v then ⌊v⌋₊ + 1
  else ⌊v⌋₊ + ⌊v⌋₊ % 2

theorem floor_le_nearestEven (v : ℚ) : ⌊v⌋₊ ≤ nearestEven v := by
  unfold nearestEven
  split_ifs <;> omega

theorem nearestEven_le_floor (v : ℚ) : nearestEven v ≤ ⌊v⌋₊ + 1 := by
  unfold nearestEven
  split_ifs <;> omega

@[simp] theorem nearestEven_natCast (n : ℕ) : nearestEven n = n := by
  simp [nearestEven]

theorem nearestEven_mono (h : u ≤ v) : nearestEven u ≤ nearestEven v := by
  rcases (Nat.floor_mono h).lt_or_eq with less | same
  · exact (nearestEven_le_floor u).trans (less.trans_le (floor_le_nearestEven v))
  · unfold nearestEven
    rw [same]
    split_ifs <;> first | omega | linarith

theorem nearestEven_le (h : v ≤ n) : nearestEven v ≤ n :=
  (nearestEven_mono h).trans_eq (nearestEven_natCast n)

theorem le_nearestEven (h : n ≤ v) : n ≤ nearestEven v :=
  (nearestEven_natCast n).symm.trans_le (nearestEven_mono h)

theorem nearestEven_eq (lower : n - 1 / 2 ≤ v) (upper : v ≤ n + 1 / 2)
    (tie : n % 2 = 0 ∨ n - 1 / 2 < v ∧ v < n + 1 / 2) : nearestEven v = n := by
  rcases le_or_gt (n : ℚ) v with right | left
  · have floor : ⌊v⌋₊ = n := (Nat.floor_eq_iff (n.cast_nonneg.trans right)).mpr ⟨right, by linarith⟩
    rw [nearestEven, floor]
    rcases upper.lt_or_eq with below | rfl
    · exact if_pos below
    · have even : n % 2 = 0 := tie.resolve_right fun apart => apart.2.false
      simp [even]
  · rcases Nat.eq_zero_or_pos n with rfl | positive
    · rw [Nat.cast_zero] at left
      rw [nearestEven, Nat.floor_of_nonpos left.le]
      exact if_pos (by norm_num; linarith)
    · obtain ⟨k, rfl⟩ := Nat.exists_eq_succ_of_ne_zero positive.ne'
      push_cast at *
      have floor : ⌊v⌋₊ = k :=
        (Nat.floor_eq_iff (by have := k.cast_nonneg (α := ℚ); linarith)).mpr
          ⟨by linarith, by linarith⟩
      rw [nearestEven, floor]
      rcases lower.lt_or_eq with above | rfl
      · rw [if_neg (by linarith), if_pos (by linarith)]
      · have odd : (k + 1) % 2 = 0 := tie.resolve_right fun apart => apart.1.false
        rw [if_neg (by linarith), if_neg (by linarith)]
        omega

/-- The places of the unit after the point. The power is not to be written out. -/
@[irreducible] def unitPlaces : ℕ := 1074

theorem unitPlaces_eq : unitPlaces = 1074 := by rw [unitPlaces]

def oneUnits : ℕ := 2 ^ unitPlaces

theorem oneUnits_pos : (0 : ℚ) < oneUnits := by
  exact_mod_cast Nat.two_pow_pos unitPlaces

theorem zpow_sub_unit (p : ℤ) : (2 : ℚ) ^ (p - 1074) = 2 ^ p / oneUnits := by
  have places : (1074 : ℤ) = unitPlaces := by rw [unitPlaces_eq, Nat.cast_ofNat]
  rw [places, zpow_sub₀ two_ne_zero, zpow_natCast, oneUnits, Nat.cast_pow, Nat.cast_ofNat]

theorem zpow_mul_oneUnits (e : ℤ) : (2 : ℚ) ^ e * oneUnits = 2 ^ (e + 1074) := by
  rw [← add_sub_cancel_right e 1074, zpow_sub_unit, div_mul_cancel₀ _ oneUnits_pos.ne',
    add_sub_cancel_right]

/-- The power of two that a number of units is cut at: its first place of fifty-three is the leading
one, but no place is below the unit. -/
def place (u : ℚ) : ℕ := ⌊u⌋₊.log2 - 52

theorem lt_of_place (u : ℚ) : u < 2 ^ (place u + 53) := by
  have below : ⌊u⌋₊ + 1 ≤ 2 ^ (place u + 53) :=
    Nat.lt_log2_self.trans_le (Nat.pow_le_pow_right (by decide) (by unfold place; omega))
  calc
    u < ⌊u⌋₊ + 1 := Nat.lt_floor_add_one u
    _ ≤ 2 ^ (place u + 53) := mod_cast below

theorem le_of_place (h : place u ≠ 0) : 2 ^ (place u + 52) ≤ u := by
  have leading : place u + 52 = ⌊u⌋₊.log2 := by
    unfold place at h ⊢
    omega
  have positive : ⌊u⌋₊ ≠ 0 := by
    intro zero
    simp [place, zero] at h
  calc
    (2 : ℚ) ^ (place u + 52) ≤ ⌊u⌋₊ := by
      rw [leading]
      exact_mod_cast Nat.log2_self_le positive
    _ ≤ u := (Nat.le_floor_iff' positive).mp le_rfl

theorem place_eq (below : u < 2 ^ (p + 53)) (above : p = 0 ∨ 2 ^ (p + 52) ≤ u) : place u = p := by
  have apart : ∀ {a b : ℕ}, a < b → u < 2 ^ (a + 53) → ¬ 2 ^ (b + 52) ≤ u := by
    intro a b less below above
    have : (2 : ℚ) ^ (a + 53) ≤ 2 ^ (b + 52) := pow_le_pow_right₀ (by norm_num) (by omega)
    linarith
  rcases Nat.lt_trichotomy (place u) p with less | same | greater
  · exact absurd (above.resolve_left (by omega)) (apart less (lt_of_place u))
  · exact same
  · exact absurd (le_of_place (by omega)) (apart greater below)

theorem place_mono (h : u ≤ v) : place u ≤ place v := by
  by_contra greater
  have above := le_of_place (u := u) (by omega)
  have below := lt_of_place v
  have : (2 : ℚ) ^ (place v + 53) ≤ 2 ^ (place u + 52) :=
    pow_le_pow_right₀ (by norm_num) (by omega)
  linarith

theorem hiddenBit_eq : hiddenBit = 2 ^ 52 := rfl

/-- A number of units rounded to fifty-three places: the place counts the binades before, and the
places follow. -/
def rounded (u : ℚ) : ℕ := place u * hiddenBit + nearestEven (u / 2 ^ place u)

def nearest (u : ℚ) : ℕ := min infinity.magnitude (rounded u)

def unitsAt (k : ℕ) : ℕ :=
  if k < hiddenBit then k else (k % hiddenBit + hiddenBit) * 2 ^ (k / hiddenBit - 1)

theorem places_le (u : ℚ) : nearestEven (u / 2 ^ place u) ≤ 2 * hiddenBit := by
  refine nearestEven_le ?_
  have := lt_of_place u
  rw [pow_add] at this
  rw [div_le_iff₀ (by positivity), hiddenBit_eq]
  push_cast
  linarith

theorem le_places (h : place u ≠ 0) : hiddenBit ≤ nearestEven (u / 2 ^ place u) := by
  refine le_nearestEven ?_
  have := le_of_place h
  rw [pow_add] at this
  rw [le_div_iff₀ (by positivity), hiddenBit_eq]
  push_cast
  linarith

theorem rounded_mono (h : u ≤ v) : rounded u ≤ rounded v := by
  unfold rounded
  rcases (place_mono h).lt_or_eq with less | same
  · -- the lower number fills at most its binade, and the higher one at least begins its own
    nlinarith [places_le u, le_places (u := v) (by omega)]
  · rw [same]
    gcongr
    exact nearestEven_mono (by gcongr)

theorem nearest_mono (h : u ≤ v) : nearest u ≤ nearest v :=
  min_le_min_left _ (rounded_mono h)

/-- The places `s`, the last one worth `2 ^ p` units, are fifty-three of which the first is set, or
fewer at the lowest power. -/
structure Places (p s : ℕ) : Prop where
  below : s < 2 * hiddenBit
  above : p = 0 ∨ hiddenBit ≤ s

theorem exists_places (k : ℕ) :
    ∃ p s, Places p s ∧ k = p * hiddenBit + s ∧ unitsAt k = s * 2 ^ p := by
  have positive : 0 < hiddenBit := by decide
  have below := Nat.mod_lt k positive
  have split := Nat.div_add_mod k hiddenBit
  unfold unitsAt
  split_ifs with small
  · exact ⟨0, k, ⟨by omega, .inl rfl⟩, by omega, by simp⟩
  · have binade : 1 ≤ k / hiddenBit := (Nat.one_le_div_iff positive).mpr (by omega)
    refine ⟨k / hiddenBit - 1, k % hiddenBit + hiddenBit, ⟨by omega, .inr (by omega)⟩, ?_, rfl⟩
    obtain ⟨b, hb⟩ := Nat.exists_eq_add_of_le binade
    rw [hb] at split ⊢
    simp only [Nat.add_sub_cancel_left]
    linarith

namespace Places

theorem place_eq (h : Places p s) : place (s * 2 ^ p : ℕ) = p := by
  obtain ⟨below, above⟩ := h
  rw [hiddenBit_eq] at below above
  refine Binary64.place_eq ?_ (above.imp_right fun above => ?_)
  · have : s * 2 ^ p < 2 ^ (p + 53) := by
      rw [Nat.pow_add, Nat.mul_comm]
      exact Nat.mul_lt_mul_of_pos_left below (by positivity)
    exact_mod_cast this
  · have : 2 ^ (p + 52) ≤ s * 2 ^ p := by
      rw [Nat.pow_add, Nat.mul_comm]
      exact Nat.mul_le_mul_right _ above
    exact_mod_cast this

theorem rounded_eq (h : Places p s) : rounded (s * 2 ^ p : ℕ) = p * hiddenBit + s := by
  rw [rounded, h.place_eq]
  push_cast
  rw [mul_div_cancel_right₀ _ (by positivity), nearestEven_natCast]

theorem unique {q t : ℕ} (h : Places p s) (h' : Places q t)
    (same : p * hiddenBit + s = q * hiddenBit + t) : p = q ∧ s = t := by
  obtain ⟨below, above⟩ := h
  obtain ⟨below', above'⟩ := h'
  simp only [hiddenBit] at *
  omega

theorem unitsAt_eq (h : Places p s) : unitsAt (p * hiddenBit + s) = s * 2 ^ p := by
  obtain ⟨q, t, places, split, value⟩ := exists_places (p * hiddenBit + s)
  obtain ⟨rfl, rfl⟩ := h.unique places split
  exact value

end Places

@[simp] theorem rounded_unitsAt (k : ℕ) : rounded (unitsAt k) = k := by
  obtain ⟨p, s, places, split, value⟩ := exists_places k
  rw [value, places.rounded_eq, split]

theorem nearest_unitsAt {k : ℕ} (h : k ≤ infinity.magnitude) : nearest (unitsAt k) = k := by
  rw [nearest, rounded_unitsAt, min_eq_right h]

theorem Places.rounded_of_near (h : Places p s) (lower : (s - 1 / 2) * 2 ^ p ≤ u)
    (upper : u ≤ (s + 1 / 2) * 2 ^ p)
    (tie : s % 2 = 0 ∨ (s - 1 / 2) * 2 ^ p < u ∧ u < (s + 1 / 2) * 2 ^ p)
    (binade : p = 0 ∨ hiddenBit * 2 ^ p ≤ u) : rounded u = p * hiddenBit + s := by
  have power : (0 : ℚ) < 2 ^ p := by positivity
  have below : (s : ℚ) + 1 ≤ 2 ^ 53 := by exact_mod_cast h.below
  have hplace : place u = p := by
    refine Binary64.place_eq ?_ (binade.imp_right fun above => ?_)
    · calc
        u ≤ (s + 1 / 2) * 2 ^ p := upper
        _ < 2 ^ 53 * 2 ^ p := by gcongr; linarith
        _ = 2 ^ (p + 53) := by ring
    · calc
        (2 : ℚ) ^ (p + 52) = hiddenBit * 2 ^ p := by rw [hiddenBit_eq]; push_cast; ring
        _ ≤ u := above
  rw [rounded, hplace, nearestEven_eq]
  · rwa [le_div_iff₀ power]
  · rwa [div_le_iff₀ power]
  · rwa [lt_div_iff₀ power, div_lt_iff₀ power]

/-- Below the first number of a binade the places are half as wide. -/
theorem rounded_of_binade (lower : (hiddenBit - 1 / 4) * 2 ^ (p + 1) ≤ u)
    (upper : u < hiddenBit * 2 ^ (p + 1)) : rounded u = (p + 1) * hiddenBit + hiddenBit := by
  have power : (0 : ℚ) < 2 ^ p := by positivity
  rw [pow_succ] at lower upper
  have hplace : place u = p := by
    refine Binary64.place_eq ?_ (.inr ?_)
    · calc
        u < hiddenBit * (2 ^ p * 2) := upper
        _ = 2 ^ (p + 53) := by rw [hiddenBit_eq]; push_cast; ring
    · calc
        (2 : ℚ) ^ (p + 52) = hiddenBit * 2 ^ p := by rw [hiddenBit_eq]; push_cast; ring
        _ ≤ (hiddenBit - 1 / 4) * (2 ^ p * 2) := by
          rw [hiddenBit_eq]
          push_cast
          nlinarith
        _ ≤ u := lower
  have full : nearestEven (u / 2 ^ p) = 2 * hiddenBit := by
    refine nearestEven_eq ?_ ?_ (.inl (Nat.mul_mod_right 2 _))
    · rw [le_div_iff₀ power]
      push_cast
      linarith
    · rw [div_le_iff₀ power]
      push_cast
      linarith
  rw [rounded, hplace, full]
  ring

theorem exists_places_shift (h : m ≤ 2 ^ 53) (a : ℕ) : ∃ p s, Places p s ∧ m * 2 ^ a = s * 2 ^ p := by
  rcases Nat.eq_zero_or_pos m with rfl | positive
  · exact ⟨0, 0, ⟨by decide, .inl rfl⟩, by simp⟩
  rcases h.lt_or_eq with below | rfl
  · -- as many of the zeros that follow as there is room for are places, too
    have log : m.log2 < 53 := (Nat.log2_lt positive.ne').mpr below
    obtain ⟨j, hj⟩ : ∃ j, min a (52 - m.log2) = j := ⟨_, rfl⟩
    refine ⟨a - j, m * 2 ^ j, ⟨?_, or_iff_not_imp_left.mpr fun nonzero => ?_⟩, ?_⟩
    · calc
        m * 2 ^ j < 2 ^ (m.log2 + 1) * 2 ^ j := by gcongr; exact Nat.lt_log2_self
        _ = 2 ^ (m.log2 + 1 + j) := (Nat.pow_add ..).symm
        _ ≤ 2 ^ 53 := Nat.pow_le_pow_right (by decide) (by omega)
    · calc
        hiddenBit = 2 ^ (m.log2 + j) := by rw [hiddenBit_eq, show m.log2 + j = 52 by omega]
        _ = 2 ^ m.log2 * 2 ^ j := Nat.pow_add ..
        _ ≤ m * 2 ^ j := Nat.mul_le_mul_right _ (Nat.log2_self_le positive.ne')
    · rw [Nat.mul_assoc, ← Nat.pow_add, show j + (a - j) = a by omega]
  · exact ⟨a + 1, 2 ^ 52, ⟨by decide, .inr le_rfl⟩, by ring⟩

theorem nearest_exact (h : m ≤ 2 ^ 53) {a : ℕ} (bound : m * 2 ^ a < unitsAt infinity.magnitude) :
    nearest (m * 2 ^ a : ℕ) < infinity.magnitude ∧
      unitsAt (nearest (m * 2 ^ a : ℕ)) = m * 2 ^ a := by
  obtain ⟨p, s, places, split⟩ := exists_places_shift h a
  have exact : unitsAt (rounded (m * 2 ^ a : ℕ)) = m * 2 ^ a := by
    rw [split, places.rounded_eq, places.unitsAt_eq]
  have finite : rounded (m * 2 ^ a : ℕ) < infinity.magnitude := by
    refine lt_of_le_of_ne ?_ fun infinite => ?_
    · rw [← rounded_unitsAt infinity.magnitude]
      exact rounded_mono (by exact_mod_cast bound.le)
    · rw [infinite] at exact
      omega
  rw [nearest, min_eq_right finite.le]
  exact ⟨finite, exact⟩

end Binary64

end QuestionSynthesis
