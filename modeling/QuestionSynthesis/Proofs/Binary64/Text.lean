import QuestionSynthesis.Proofs.Binary64.Shortest
import QuestionSynthesis.Proofs.Json.Numeral
import QuestionSynthesis.Proofs.Text.Blank

/-!
# Printed doubles

The text of a number reads back as this number (`parse?_text`), and the text of a whole number as
the double nearest to it (`parse?_toString`). Neither has a blank in it.
-/

namespace QuestionSynthesis

namespace Binary64

open Json.Numeral (takeWhile_digits)

variable {x : Binary64} {ds : List Char}

theorem digits_toDigits (d : ℕ) : ∀ c ∈ Nat.toDigits 10 d, c.isDigit = true :=
  fun _ hc => Nat.isDigit_of_mem_toDigits (by decide) (by decide) hc

theorem decimal?_digits (all : ∀ c ∈ ds, c.isDigit = true) (nonempty : ds ≠ []) :
    decimal? ds = some (ofDecimal (Decimal.ofDigits ds) 0) := by
  obtain ⟨whole, rest⟩ := takeWhile_digits all [] (by simp)
  rw [List.append_nil] at whole rest
  simp [decimal?, whole, rest, nonempty, Decimal.fraction, Decimal.exponent?]

theorem decimal?_point {fs : List Char} (all : ∀ c ∈ ds, c.isDigit = true) (nonempty : ds ≠ [])
    (all' : ∀ c ∈ fs, c.isDigit = true) :
    decimal? (ds ++ '.' :: fs) = some (ofDecimal (Decimal.ofDigits (ds ++ fs)) (-fs.length)) := by
  obtain ⟨whole, rest⟩ := takeWhile_digits all ('.' :: fs) (by simp)
  obtain ⟨fraction, last⟩ := takeWhile_digits all' [] (by simp)
  rw [List.append_nil] at fraction last
  simp [decimal?, whole, rest, nonempty, Decimal.fraction, fraction, last, Decimal.exponent?]

theorem ofDigits_append (ds es : List Char) :
    Decimal.ofDigits (ds ++ es) = 10 ^ es.length * Decimal.ofDigits ds + Decimal.ofDigits es :=
  (Nat.ofDigitChars_append 0).trans Nat.ofDigitChars_eq_ofDigitChars_zero

theorem ofDigits_zeros (n : ℕ) : Decimal.ofDigits (List.replicate n '0') = 0 :=
  Nat.ofDigitChars_replicate_zero.trans (Nat.mul_zero _)

/-- A digit run of which the last digit counts `10 ^ scale`, with zeros or a point as needed. -/
inductive Laid (ds : List Char) : ℤ → List Char → Prop where
  | whole (n : ℕ) : Laid ds n (ds ++ List.replicate n '0')
  | inside {before after : List Char} (split : ds = before ++ after) (some : before ≠ []) :
      Laid ds (-after.length) (before ++ '.' :: after)
  | below (n : ℕ) : Laid ds (-(n + ds.length : ℕ)) ('0' :: '.' :: (List.replicate n '0' ++ ds))

theorem pointed_laid (ds : List Char) (scale : ℤ) : Laid ds scale (pointed false ds scale) := by
  unfold pointed
  rcases lt_or_ge scale 0 with fraction | whole
  · obtain ⟨n, rfl⟩ : ∃ n : ℕ, scale = -n := ⟨(-scale).toNat, by omega⟩
    simp only [if_neg fraction.not_ge, neg_neg, Int.toNat_natCast]
    split_ifs with places
    · have some : ds.take (ds.length - n) ≠ [] := by
        rw [← List.length_pos_iff, List.length_take]
        omega
      have laid := Laid.inside (List.take_append_drop (ds.length - n) ds).symm some
      rwa [List.length_drop, Nat.sub_sub_self places.le] at laid
    · have laid : Laid ds _ _ := .below (n - ds.length)
      rwa [Nat.sub_add_cancel (not_lt.mp places)] at laid
  · obtain ⟨n, rfl⟩ := Int.eq_ofNat_of_zero_le whole
    rw [if_pos whole, if_neg Bool.false_ne_true, List.append_nil, Int.toNat_natCast]
    exact .whole n

theorem digits_zeros (n : ℕ) : ∀ c ∈ List.replicate n '0', c.isDigit = true := by
  intro c hc
  rw [List.eq_of_mem_replicate hc]
  rfl

theorem Laid.decimal? {scale : ℤ} {s : List Char} (h : Laid ds scale s)
    (all : ∀ c ∈ ds, c.isDigit = true) (nonempty : ds ≠ []) :
    decimal? s = some (ofDecimal (Decimal.ofDigits ds) scale) := by
  cases h with
  | whole n =>
    rw [decimal?_digits (List.forall_mem_append.mpr ⟨all, digits_zeros n⟩) (by simp [nonempty]),
      ofDigits_append, ofDigits_zeros, List.length_replicate, ofDecimal_eq, ofDecimal_eq]
    congr 3
    push_cast
    rw [zpow_natCast]
    ring
  | inside split some =>
    subst split
    obtain ⟨before, after⟩ := List.forall_mem_append.mp all
    exact decimal?_point before some after
  | below n =>
    have read := decimal?_point (digits_zeros 1) (by simp)
      (List.forall_mem_append.mpr ⟨digits_zeros n, all⟩)
    rw [ofDigits_append, ofDigits_append, ofDigits_zeros, ofDigits_zeros,
      List.length_append, List.length_replicate] at read
    simpa using read

def Numeric (s : List Char) : Prop := ∃ c r, s = c :: r ∧ c.isDigit = true

theorem numeric_of_all (all : ∀ c ∈ ds, c.isDigit = true) (nonempty : ds ≠ []) (r : List Char) :
    Numeric (ds ++ r) := by
  obtain ⟨c, cs, rfl⟩ := List.exists_cons_of_ne_nil nonempty
  exact ⟨c, cs ++ r, rfl, all c (by simp)⟩

theorem toLower_of_isDigit {c : Char} (h : c.isDigit = true) : c.toLower = c := by
  have range : 48 ≤ c.val ∧ c.val ≤ 57 := by simpa [Char.isDigit] using h
  have small : ¬ (65 ≤ c.val ∧ c.val ≤ 90) := by
    rw [UInt32.le_iff_toNat_le, UInt32.le_iff_toNat_le] at *
    simp at *
    omega
  unfold Char.toLower
  rw [dif_neg]
  simpa using small

theorem unsigned?_of_numeric (h : Numeric ds) : unsigned? ds = decimal? ds := by
  obtain ⟨c, r, rfl, digit⟩ := h
  have apart : ∀ w : List Char, (∀ d ∈ w.head?, d.isDigit = false) →
      (c :: r).map Char.toLower ≠ w := by
    rintro w letter rfl
    have first := letter c (by simp [toLower_of_isDigit digit])
    rw [digit] at first
    cases first
  dsimp only [unsigned?]
  rw [if_neg (not_or.mpr ⟨apart _ (by simp), apart _ (by simp)⟩), if_neg (apart _ (by simp))]

theorem parse?_of_numeric (h : Numeric ds) : parse? ds = unsigned? ds := by
  obtain ⟨c, r, rfl, digit⟩ := h
  unfold parse?
  split
  next equal =>
    rw [(List.cons.inj equal).1] at digit
    cases digit
  next equal =>
    rw [(List.cons.inj equal).1] at digit
    cases digit
  next => rfl

theorem unsigned?_toDigits (m : ℕ) :
    parse? (Nat.toDigits 10 m) = unsigned? (Nat.toDigits 10 m) ∧
      unsigned? (Nat.toDigits 10 m) = some (ofDecimal m 0) := by
  have numeric := numeric_of_all (digits_toDigits m) Nat.toDigits_ne_nil []
  rw [List.append_nil] at numeric
  rw [parse?_of_numeric numeric, unsigned?_of_numeric numeric,
    decimal?_digits (digits_toDigits m) Nat.toDigits_ne_nil, Json.Numeral.ofDigits_toDigits]
  exact ⟨rfl, rfl⟩

theorem toList_ofNat (m : ℕ) : (toString (Int.ofNat m)).toList = Nat.toDigits 10 m :=
  Nat.toList_repr

theorem toList_negSucc (m : ℕ) :
    (toString (Int.negSucc m)).toList = '-' :: Nat.toDigits 10 (m + 1) := by
  change ("-" ++ Nat.repr (m + 1)).toList = _
  rw [String.toList_append, Nat.toList_repr]
  rfl

theorem parse?_toString (n : ℤ) : parse? (toString n).toList = some (ofInt n) := by
  cases n with
  | ofNat m =>
    rw [toList_ofNat, (unsigned?_toDigits m).1, (unsigned?_toDigits m).2]
    rfl
  | negSucc m =>
    rw [toList_negSucc]
    change (unsigned? (Nat.toDigits 10 (m + 1))).map neg = _
    rw [(unsigned?_toDigits (m + 1)).2]
    rfl

theorem Laid.numeric {scale : ℤ} {s : List Char} (h : Laid ds scale s)
    (all : ∀ c ∈ ds, c.isDigit = true) (nonempty : ds ≠ []) : Numeric s := by
  cases h with
  | whole n => exact numeric_of_all all nonempty _
  | inside split some =>
    subst split
    exact numeric_of_all (List.forall_mem_append.mp all).1 some _
  | below n => exact ⟨'0', _, rfl, rfl⟩

theorem write_laid (x : Binary64) : Laid (Nat.toDigits 10 x.shortest.digits) x.shortest.scale
    (Layout.plain.write x.shortest) :=
  pointed_laid _ _

theorem parse?_unsignedText (h : x.isNaN = false) :
    parse? (unsignedText .plain x) = unsigned? (unsignedText .plain x) ∧
      unsigned? (unsignedText .plain x) = some (signed .positive x.magnitude) := by
  unfold unsignedText
  rw [if_neg (ne_true_of_eq_false h)]
  cases finite : x.isFinite with
  | false =>
    rw [magnitude_of_infinite h finite, if_pos (by decide)]
    decide
  | true =>
    rw [if_neg (by simp)]
    by_cases zero : x.magnitude = 0
    · rw [if_pos zero, zero]
      decide
    · rw [if_neg zero]
      have laid := write_laid x
      have digits := digits_toDigits x.shortest.digits
      have numeric := laid.numeric digits Nat.toDigits_ne_nil
      rw [parse?_of_numeric numeric, unsigned?_of_numeric numeric,
        laid.decimal? digits Nat.toDigits_ne_nil, Json.Numeral.ofDigits_toDigits,
        ofDecimal_shortest finite zero]
      exact ⟨rfl, rfl⟩

theorem eq_neg_or_signed (x : Binary64) : (if x.isNegative then (signed .positive x.magnitude).neg
    else signed .positive x.magnitude) = x := by
  have positive : (signed .positive x.magnitude).sign = .positive := sign_signed _ x.magnitude_lt
  have magnitude : (signed .positive x.magnitude).magnitude = x.magnitude :=
    magnitude_signed _ x.magnitude_lt
  cases negative : x.isNegative with
  | true =>
    refine eq_of_sign_of_magnitude ?_ (by rw [if_pos rfl, magnitude_neg, magnitude])
    have clear : (signed .positive x.magnitude).isNegative = false := by simpa [sign] using positive
    simp [sign, clear, negative]
  | false =>
    rw [if_neg Bool.false_ne_true]
    exact eq_of_sign_of_magnitude (by rw [positive]; simp [sign, negative]) magnitude

/-- The text of a number reads back as this number, the sign of a zero included. -/
theorem parse?_text (h : x.isNaN = false) : parse? (x.text .plain).toList = some x := by
  obtain ⟨bare, unsigned⟩ := parse?_unsignedText h
  have value := x.eq_neg_or_signed
  rw [text, String.toList_ofList, h, Bool.not_false, Bool.and_true]
  cases negative : x.isNegative with
  | true =>
    rw [negative, if_pos rfl] at value
    rw [if_pos rfl]
    change (unsigned? (unsignedText .plain x)).map neg = _
    rw [unsigned, Option.map_some, value]
  | false =>
    rw [negative, if_neg Bool.false_ne_true] at value
    rw [if_neg Bool.false_ne_true, bare, unsigned, value]

theorem visible_toDigits (d : ℕ) : ∀ c ∈ Nat.toDigits 10 d, Text.isBlank c = false :=
  fun c hc => Text.isBlank_of_isDigit (digits_toDigits d c hc)

theorem Laid.visible {scale : ℤ} {s : List Char} (h : Laid ds scale s)
    (all : ∀ c ∈ ds, c.isDigit = true) : ∀ c ∈ s, Text.isBlank c = false := by
  have digits : ∀ {es : List Char}, (∀ c ∈ es, c.isDigit = true) →
      ∀ c ∈ es, Text.isBlank c = false := fun all c hc => Text.isBlank_of_isDigit (all c hc)
  cases h with
  | whole n => exact List.forall_mem_append.mpr ⟨digits all, digits (digits_zeros n)⟩
  | inside split some =>
    subst split
    obtain ⟨before, after⟩ := List.forall_mem_append.mp all
    simp only [List.forall_mem_append, List.forall_mem_cons]
    exact ⟨digits before, rfl, digits after⟩
  | below n =>
    simp only [List.forall_mem_append, List.forall_mem_cons]
    exact ⟨rfl, rfl, digits (digits_zeros n), digits all⟩

theorem visible_text (x : Binary64) : ∀ c ∈ (x.text .plain).toList, Text.isBlank c = false := by
  have unsigned : ∀ c ∈ unsignedText .plain x, Text.isBlank c = false := by
    unfold unsignedText
    split_ifs with nan infinite zero point
    · simp [Text.isBlank]
    · simp [Text.isBlank]
    · cases point
    · simp [Text.isBlank]
    · exact (write_laid x).visible (digits_toDigits _)
  rw [text, String.toList_ofList]
  split_ifs
  · exact List.forall_mem_cons.mpr ⟨rfl, unsigned⟩
  · exact unsigned

theorem visible_toString (n : ℤ) : ∀ c ∈ (toString n).toList, Text.isBlank c = false := by
  cases n with
  | ofNat m =>
    rw [toList_ofNat]
    exact visible_toDigits m
  | negSucc m =>
    rw [toList_negSucc]
    exact List.forall_mem_cons.mpr ⟨rfl, visible_toDigits (m + 1)⟩

end Binary64

end QuestionSynthesis
