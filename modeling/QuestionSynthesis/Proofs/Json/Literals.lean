import QuestionSynthesis.Proofs.Binary64.Text
import QuestionSynthesis.Proofs.Json.Spelling

/-!
# Literals of doubles

What is written for a finite double is a literal that denotes it (`exists_literal`). A literal is
read by scaling a rounded number, which loses nothing if the literal is short: if its digits and its
power of ten are doubles themselves (`value_of_brief`). So a double with a short literal is read
back as it was (`leafExact_of_brief`).
-/

namespace QuestionSynthesis

namespace Json

namespace Numeral

open Binary64 (Layout digits_toDigits digits_zeros ofDecimal ofDecimal_congr)

def digits (n : Numeral) : ℕ := Decimal.ofDigits (n.whole ++ n.fraction)

def scale (n : Numeral) : ℤ := n.exponent - n.fraction.length

def denoted (n : Numeral) : Binary64 :=
  if n.negative then (ofDecimal n.digits n.scale).neg else ofDecimal n.digits n.scale

/-- The digits and the power of ten are doubles. -/
structure Brief (n : Numeral) : Prop where
  digits : n.digits < 2 ^ 53
  scale : n.scale.natAbs ≤ 22

variable {n : Numeral} {m : ℕ} {e : ℤ} {ds fs : List Char} {x : Binary64}

theorem le_ofDigitChars (ds : List Char) (m : ℕ) : m ≤ Nat.ofDigitChars 10 ds m := by
  rw [Nat.ofDigitChars_eq_ofDigitChars_zero]
  exact (Nat.le_mul_of_pos_left m (Nat.pow_pos (by decide))).trans (Nat.le_add_right _ _)

theorem gatherWhole_eq (h : Nat.ofDigitChars 10 ds m ≤ wordMax) :
    gatherWhole m ds = ⟨Nat.ofDigitChars 10 ds m, 0⟩ := by
  induction ds generalizing m with
  | nil => rfl
  | cons c ds ih =>
    rw [Nat.ofDigitChars_cons] at h ⊢
    rw [gatherWhole, if_pos ((le_ofDigitChars ds _).trans h), ih h]

theorem gatherFraction_eq {g : Gathered} (h : Nat.ofDigitChars 10 ds g.significand ≤ wordMax) :
    gatherFraction g ds = ⟨Nat.ofDigitChars 10 ds g.significand, g.scale - ds.length⟩ := by
  induction ds generalizing g with
  | nil => simp [gatherFraction, Nat.ofDigitChars]
  | cons c ds ih =>
    rw [Nat.ofDigitChars_cons] at h ⊢
    rw [gatherFraction, if_pos ((le_ofDigitChars ds _).trans h), ih h, List.length_cons]
    congr 1
    push_cast
    omega

theorem scaled?_eq (h : m < 2 ^ 53) (he : e.natAbs ≤ 22) :
    Gathered.scaled? ⟨m, e⟩ = some (ofDecimal m e) := by
  cases e with
  | ofNat k =>
    have range : k ≤ 22 := he
    have finite := Binary64.isFinite_ofDecimal h range
    simp only [Gathered.scaled?, Binary64.mul_power h range]
    rw [if_pos (by omega), if_pos finite]
    rfl
  | negSucc k =>
    have range : k + 1 ≤ 22 := he
    simp only [Gathered.scaled?]
    rw [scaleDown, if_pos (by omega), Binary64.div_power h range]
    rfl

theorem value_of_brief (brief : n.Brief) (real : n.real = true) : n.value = .double n.denoted := by
  have word : Nat.ofDigitChars 10 (n.whole ++ n.fraction) 0 ≤ wordMax :=
    brief.digits.le.trans (by decide)
  rw [Nat.ofDigitChars_append] at word
  have gathered : gatherFraction (gatherWhole 0 n.whole) n.fraction =
      ⟨n.digits, -n.fraction.length⟩ := by
    rw [gatherWhole_eq ((le_ofDigitChars n.fraction _).trans word), gatherFraction_eq word,
      ← Nat.ofDigitChars_append, zero_sub]
    rfl
  have scaled := scaled?_eq brief.digits brief.scale
  rw [scale, sub_eq_neg_add] at scaled
  simp only [value, real, gathered, scaled, denoted, scale, sub_eq_neg_add]
  simp

def fractionText (fs : List Char) : List Char := if fs.isEmpty then [] else '.' :: fs

def exponentText : Option ℤ → List Char
  | none => []
  | some e => 'e' :: (toString e).toList

theorem signedDigits?_toString (e : ℤ) : Decimal.signedDigits? (toString e).toList = some e := by
  have all : ∀ m : ℕ,
      (!(Nat.toDigits 10 m).isEmpty && (Nat.toDigits 10 m).all Char.isDigit) = true := by
    intro m
    simp only [Bool.and_eq_true, Bool.not_eq_true', List.isEmpty_eq_false_iff, List.all_eq_true]
    exact ⟨Nat.toDigits_ne_nil, digits_toDigits m⟩
  cases e with
  | ofNat m =>
    rw [Binary64.toList_ofNat]
    unfold Decimal.signedDigits?
    split
    next signed => cases digits_toDigits m '-' (by simp [signed])
    next signed => cases digits_toDigits m '+' (by simp [signed])
    next => rw [if_pos (all m), ofDigits_toDigits]; rfl
  | negSucc m =>
    rw [Binary64.toList_negSucc, Decimal.signedDigits?, if_pos (all (m + 1)), ofDigits_toDigits]
    rfl

theorem exponent?_exponentText (exponent : Option ℤ) :
    exponent? (exponentText exponent) = some (exponent.isSome, exponent.getD 0) := by
  cases exponent with
  | none => rfl
  | some e =>
    rw [exponentText, exponent?, if_pos (.inl rfl), signedDigits?_toString]
    rfl

theorem head?_exponentText (exponent : Option ℤ) :
    ∀ c ∈ (exponentText exponent).head?, c = 'e' := by
  cases exponent <;> simp [exponentText]

theorem fraction_text (all : ∀ c ∈ fs, c.isDigit = true) (exponent : Option ℤ) :
    Decimal.fraction (fractionText fs ++ exponentText exponent) = (fs, exponentText exponent) := by
  cases fs with
  | nil => cases exponent <;> rfl
  | cons c fs =>
    obtain ⟨digits, rest⟩ := takeWhile_digits all (exponentText exponent) (by
      intro c hc
      rw [head?_exponentText exponent c hc]
      rfl)
    simp only [fractionText, List.isEmpty_cons, Bool.false_eq_true, if_false, List.cons_append,
      Decimal.fraction]
    rw [← List.cons_append, digits, rest]

/-- A literal without sign that denotes `m * 10 ^ e`, and has a point or an exponent. -/
inductive Unsigned (m : ℕ) (e : ℤ) : List Char → Prop where
  | written {ds fs : List Char} {exponent : Option ℤ} (whole : ∀ c ∈ ds, c.isDigit = true)
      (nonempty : ds ≠ []) (leading : ds.head? = some '0' → ds.length = 1)
      (fraction : ∀ c ∈ fs, c.isDigit = true) (real : (exponent.isSome || !fs.isEmpty) = true)
      (value : ofDecimal (Decimal.ofDigits (ds ++ fs)) (exponent.getD 0 - fs.length) =
        ofDecimal m e) :
      Unsigned m e (ds ++ (fractionText fs ++ exponentText exponent))

theorem Unsigned.parse? {s : List Char} (h : Unsigned m e s) (negative : Bool) :
    ∃ n, parse? (if negative then '-' :: s else s) = some n ∧ n.real = true ∧
      n.denoted = if negative then (ofDecimal m e).neg else ofDecimal m e := by
  cases h with
  | @written ds fs exponent whole nonempty leading fraction real value =>
    have stop : ∀ c ∈ (fractionText fs ++ exponentText exponent).head?, c.isDigit = false := by
      intro c hc
      cases fs with
      | nil =>
        rw [head?_exponentText exponent c hc]
        rfl
      | cons d fs =>
        cases hc
        rfl
    have point : ((fractionText fs ++ exponentText exponent).head? == some '.' && fs.isEmpty) =
        false := by
      cases fs with
      | nil => cases exponent <;> rfl
      | cons d fs => exact Bool.and_false _
    refine ⟨_, parse?_split whole nonempty leading stop (fraction_text fraction exponent) point
      (exponent?_exponentText exponent) negative, real, ?_⟩
    rw [denoted, digits, scale, value]

theorem Unsigned.point (whole : ∀ c ∈ ds, c.isDigit = true) (nonempty : ds ≠ [])
    (leading : ds.head? = some '0' → ds.length = 1) (fraction : ∀ c ∈ fs, c.isDigit = true)
    (some : fs ≠ [])
    (value : ofDecimal (Decimal.ofDigits (ds ++ fs)) (-fs.length) = ofDecimal m e) :
    Unsigned m e (ds ++ '.' :: fs) := by
  have written := @Unsigned.written m e ds fs none whole nonempty leading fraction
    (by simpa using some) (by rw [← value, Option.getD_none, zero_sub])
  rwa [fractionText, if_neg (by simpa using some), exponentText, List.append_nil] at written

structure Leads (ds : List Char) (m : ℕ) : Prop where
  all : ∀ c ∈ ds, c.isDigit = true
  nonempty : ds ≠ []
  first : ds.head? ≠ some '0'
  value : Decimal.ofDigits ds = m

theorem leads_toDigits (positive : 0 < m) : Leads (Nat.toDigits 10 m) m :=
  ⟨digits_toDigits m, Nat.toDigits_ne_nil, head?_toDigits positive, ofDigits_toDigits m⟩

theorem Leads.unsigned_whole (h : Leads ds m) (n : ℕ) :
    Unsigned m n (ds ++ List.replicate n '0' ++ ['.', '0']) := by
  refine .point (List.forall_mem_append.mpr ⟨h.all, digits_zeros n⟩) (by simp [h.nonempty])
    (fun zero => absurd ?_ h.first) (digits_zeros 1) (by simp) (ofDecimal_congr ?_)
  · obtain ⟨c, cs, rfl⟩ := List.exists_cons_of_ne_nil h.nonempty
    exact zero
  · have zero : Decimal.ofDigits ['0'] = 0 := rfl
    rw [Binary64.ofDigits_append, Binary64.ofDigits_append, Binary64.ofDigits_zeros, h.value, zero,
      List.length_singleton, List.length_replicate, zpow_natCast, Nat.cast_one, zpow_neg_one]
    push_cast
    ring

theorem Leads.unsigned_inside (h : Leads (ds ++ fs) m) (whole : ds ≠ []) (fraction : fs ≠ []) :
    Unsigned m (-fs.length) (ds ++ '.' :: fs) := by
  obtain ⟨before, after⟩ := List.forall_mem_append.mp h.all
  refine .point before whole (fun zero => absurd ?_ h.first) after fraction (by rw [h.value])
  rw [List.head?_append, zero, Option.some_or]

theorem Leads.unsigned_below (h : Leads ds m) (n : ℕ) :
    Unsigned m (-(n + ds.length : ℕ)) ('0' :: '.' :: (List.replicate n '0' ++ ds)) := by
  refine @Unsigned.point m _ ['0'] (List.replicate n '0' ++ ds) (digits_zeros 1) (by simp)
    (fun _ => rfl) (List.forall_mem_append.mpr ⟨digits_zeros n, h.all⟩) (by simp [h.nonempty]) ?_
  rw [Binary64.ofDigits_append, Binary64.ofDigits_append, Binary64.ofDigits_zeros, h.value,
    List.length_append, List.length_replicate]
  simp [Decimal.ofDigits]

theorem Leads.unsigned_pointed (h : Leads ds m) (e : ℤ) :
    Unsigned m e (Binary64.pointed true ds e) := by
  unfold Binary64.pointed
  rcases lt_or_ge e 0 with fraction | whole
  · obtain ⟨n, rfl⟩ : ∃ n : ℕ, e = -n := ⟨(-e).toNat, by omega⟩
    simp only [if_neg fraction.not_ge, neg_neg, Int.toNat_natCast]
    split_ifs with places
    · have length : (ds.drop (ds.length - n)).length = n := by
        rw [List.length_drop, Nat.sub_sub_self places.le]
      rw [← List.take_append_drop (ds.length - n) ds] at h
      have inside := h.unsigned_inside (List.length_pos_iff.mp (by rw [List.length_take]; omega))
        (List.length_pos_iff.mp (by omega))
      rwa [length] at inside
    · have below := h.unsigned_below (n - ds.length)
      rwa [Nat.sub_add_cancel (not_lt.mp places)] at below
  · obtain ⟨n, rfl⟩ := Int.eq_ofNat_of_zero_le whole
    rw [if_pos whole, if_pos rfl, Int.toNat_natCast]
    exact h.unsigned_whole n

theorem Leads.unsigned_scientific (h : Leads ds m) (e : ℤ) :
    Unsigned m e (Binary64.scientific ds (ds.length + e - 1)) := by
  obtain ⟨c, cs, rfl⟩ := List.exists_cons_of_ne_nil h.nonempty
  obtain ⟨digit, digits⟩ := List.forall_mem_cons.mp h.all
  have written := @Unsigned.written m e [c] cs (some ((c :: cs).length + e - 1))
    (List.forall_mem_singleton.mpr digit) (by simp) (fun _ => rfl) digits rfl (by
      rw [List.singleton_append, h.value, Option.getD_some, List.length_cons]
      congr 1
      push_cast
      ring)
  have point : fractionText cs = if (c :: cs).length = 1 then [] else '.' :: cs := by
    cases cs <;> rfl
  rw [point, exponentText] at written
  simpa [Binary64.scientific] using written

theorem unsigned_unsignedText (finite : x.isFinite = true) :
    ∃ m e, Unsigned m e (Binary64.unsignedText .marked x) ∧
      ofDecimal m e = Binary64.signed .positive x.magnitude := by
  unfold Binary64.unsignedText
  rw [if_neg (ne_true_of_eq_false (Binary64.isNaN_of_isFinite finite)), if_neg (by simp [finite])]
  by_cases zero : x.magnitude = 0
  · rw [if_pos zero, zero]
    refine ⟨0, 0, @Unsigned.point 0 0 ['0'] ['0'] (digits_zeros 1) (by simp) (fun _ => rfl)
      (digits_zeros 1) (by simp) (ofDecimal_congr ?_), by decide⟩
    have none : Decimal.ofDigits (['0'] ++ ['0']) = 0 := rfl
    rw [none, Nat.cast_zero, zero_mul, zero_mul]
  · rw [if_neg zero]
    have value := Binary64.ofDecimal_shortest finite zero
    refine ⟨_, _, ?_, value⟩
    have positive : 0 < x.shortest.digits := by
      refine Nat.pos_of_ne_zero fun none => zero ?_
      rw [none] at value
      have same := congrArg Binary64.magnitude value
      rw [Binary64.magnitude_signed _ x.magnitude_lt] at same
      exact same.symm
    have leads := leads_toDigits positive
    simp only [Layout.write]
    split_ifs
    · exact leads.unsigned_pointed _
    · exact leads.unsigned_scientific _

theorem exists_literal (finite : x.isFinite = true) :
    ∃ n, parse? (x.text .marked).toList = some n ∧ n.real = true ∧ n.denoted = x := by
  obtain ⟨m, e, unsigned, value⟩ := unsigned_unsignedText finite
  obtain ⟨n, parsed, real, denoted⟩ := unsigned.parse? x.isNegative
  refine ⟨n, ?_, real, ?_⟩
  · rw [Binary64.text, String.toList_ofList, Binary64.isNaN_of_isFinite finite, Bool.not_false,
      Bool.and_true, parsed]
  · rw [denoted, value, x.eq_neg_or_signed]

theorem leafExact_of_brief (finite : x.isFinite = true)
    (parsed : parse? (x.text .marked).toList = some n) (brief : n.Brief) :
    LeafExact (.double x) := by
  obtain ⟨n', parsed', real, denoted⟩ := exists_literal finite
  rw [parsed'] at parsed
  cases parsed
  rw [LeafExact, read?, parsed', Option.map_some, value_of_brief brief real, denoted]

end Numeral

end Json

end QuestionSynthesis
