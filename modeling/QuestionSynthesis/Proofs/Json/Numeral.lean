import Mathlib.Data.List.TakeWhile
import Mathlib.Tactic.IntervalCases
import QuestionSynthesis.Json.Printer
import QuestionSynthesis.Json.Scanner

/-!
# Literals

The characters of a literal are ones that the scanner keeps for a number (`parse?_chars`), and the
digits of a whole number that fits 64 bits, signed or unsigned, read as that number
(`read?_intText`).
-/

namespace QuestionSynthesis

namespace Json

namespace Numeral

open Scanner (isNumeral)

variable {s ds : List Char} {n : Numeral}

theorem isNumeral_of_isDigit {c : Char} (h : c.isDigit = true) : isNumeral c = true := by
  simp [isNumeral, h]

theorem isNumeral_of_dropWhile (h : ∀ c ∈ s.dropWhile Char.isDigit, isNumeral c = true) :
    ∀ c ∈ s, isNumeral c = true := by
  intro c hc
  rw [← List.takeWhile_append_dropWhile (p := Char.isDigit) (l := s)] at hc
  rcases List.mem_append.mp hc with digit | later
  · exact isNumeral_of_isDigit (List.mem_takeWhile_imp digit)
  · exact h c later

theorem signedDigits?_chars {e : Int} (h : Decimal.signedDigits? s = some e) :
    ∀ c ∈ s, isNumeral c = true := by
  have digits : ∀ {ds : List Char} {m : Int},
      (if (!ds.isEmpty && ds.all Char.isDigit) = true then some m else none) = some e →
      ∀ c ∈ ds, isNumeral c = true := by
    intro ds m h c hc
    obtain ⟨all, -⟩ := Option.ite_none_right_eq_some.mp h
    exact isNumeral_of_isDigit (List.all_eq_true.mp (Bool.and_eq_true_iff.mp all).2 c hc)
  unfold Decimal.signedDigits? at h
  split at h
  · exact List.forall_mem_cons.mpr ⟨rfl, digits h⟩
  · exact List.forall_mem_cons.mpr ⟨rfl, digits h⟩
  · exact digits h

theorem exponent?_chars {e : Bool × Int} (h : exponent? s = some e) :
    ∀ c ∈ s, isNumeral c = true := by
  cases s with
  | nil => simp
  | cons c r =>
    obtain ⟨mark, h⟩ := Option.ite_none_right_eq_some.mp h
    obtain ⟨e, digits, -⟩ := Option.map_eq_some_iff.mp h
    refine List.forall_mem_cons.mpr ⟨?_, signedDigits?_chars digits⟩
    rcases mark with rfl | rfl <;> rfl

theorem fraction_chars (h : ∀ c ∈ (Decimal.fraction s).2, isNumeral c = true) :
    ∀ c ∈ s, isNumeral c = true := by
  unfold Decimal.fraction at h
  split at h
  · exact List.forall_mem_cons.mpr ⟨rfl, isNumeral_of_dropWhile h⟩
  · exact h

theorem parse?_chars (h : parse? s = some n) :
    (∃ c r, s = c :: r ∧ (c.isDigit || c == '-') = true) ∧ ∀ c ∈ s, isNumeral c = true := by
  unfold parse? at h
  split at h
  next negative body signed =>
  have sign : s = '-' :: body ∨ s = body := by
    split at signed <;> cases signed
    · exact .inl rfl
    · exact .inr rfl
  simp only at h
  split_ifs at h with bare point
  obtain ⟨e, he, -⟩ := Option.bind_eq_some_iff.mp h
  have digits : body.takeWhile Char.isDigit ≠ [] := by
    intro none
    simp [none] at bare
  have chars : ∀ c ∈ body, isNumeral c = true :=
    isNumeral_of_dropWhile (fraction_chars (exponent?_chars he))
  rcases sign with rfl | rfl
  · exact ⟨⟨_, _, rfl, rfl⟩, List.forall_mem_cons.mpr ⟨rfl, chars⟩⟩
  · cases s with
    | nil => exact absurd rfl digits
    | cons c r =>
      have digit : c.isDigit = true := by
        by_contra other
        exact digits (List.takeWhile_cons_of_neg other)
      exact ⟨⟨c, r, rfl, by simp [digit]⟩, chars⟩

theorem head?_toDigits {m : Nat} (pos : 0 < m) : (Nat.toDigits 10 m).head? ≠ some '0' := by
  induction m using Nat.strongRecOn with
  | ind m ih =>
    by_cases small : m < 10
    · rw [Nat.toDigits_of_lt_base small]
      interval_cases m <;> decide
    · rw [Nat.toDigits_of_base_le (by decide) (by omega),
        List.head?_append, Option.or_of_isSome (List.isSome_head?.mpr Nat.toDigits_ne_nil)]
      exact ih (m / 10) (by omega) (by omega)

theorem takeWhile_digits (all : ∀ c ∈ ds, c.isDigit = true) (r : List Char)
    (stop : ∀ c ∈ r.head?, c.isDigit = false) :
    (ds ++ r).takeWhile Char.isDigit = ds ∧ (ds ++ r).dropWhile Char.isDigit = r := by
  rw [List.takeWhile_append_of_pos all, List.dropWhile_append_of_pos all]
  cases r with
  | nil => simp
  | cons c r => simp [stop c rfl]

theorem parse?_split {r fs rest : List Char} {e : Bool × ℤ} (all : ∀ c ∈ ds, c.isDigit = true)
    (nonempty : ds ≠ []) (leading : ds.head? = some '0' → ds.length = 1)
    (stop : ∀ c ∈ r.head?, c.isDigit = false) (fraction : Decimal.fraction r = (fs, rest))
    (point : (r.head? == some '.' && fs.isEmpty) = false) (exponent : exponent? rest = some e)
    (negative : Bool) :
    parse? (if negative then '-' :: (ds ++ r) else ds ++ r) =
      some ⟨negative, ds, fs, e.1 || !fs.isEmpty, e.2⟩ := by
  obtain ⟨whole, after⟩ := takeWhile_digits all r stop
  have shape : (ds.isEmpty || (ds.head? == some '0' && 1 < ds.length)) = false := by
    simp only [Bool.or_eq_false_iff, List.isEmpty_eq_false_iff, Bool.and_eq_false_imp, beq_iff_eq,
      decide_eq_false_iff_not, not_lt]
    exact ⟨nonempty, fun zero => (leading zero).le⟩
  unfold parse?
  split
  next sign body signed =>
  have parts : sign = negative ∧ body = ds ++ r := by
    cases negative with
    | true =>
      cases signed
      exact ⟨rfl, rfl⟩
    | false =>
      obtain ⟨c, cs, rfl⟩ := List.exists_cons_of_ne_nil nonempty
      simp only [Bool.false_eq_true, if_false] at signed
      split at signed
      next equal =>
        have digit := all c List.mem_cons_self
        rw [(List.cons.inj equal).1] at digit
        cases digit
      · cases signed
        exact ⟨rfl, rfl⟩
  obtain ⟨rfl, rfl⟩ := parts
  simp only [whole, after, shape, fraction, point, exponent]
  rfl

theorem leading_toDigits (m : Nat) :
    (Nat.toDigits 10 m).head? = some '0' → (Nat.toDigits 10 m).length = 1 := by
  intro zero
  rcases Nat.eq_zero_or_pos m with rfl | pos
  · rfl
  · exact absurd zero (head?_toDigits pos)

theorem parse?_toDigits (m : Nat) (negative : Bool) :
    parse? (if negative then '-' :: Nat.toDigits 10 m else Nat.toDigits 10 m) =
      some ⟨negative, Nat.toDigits 10 m, [], false, 0⟩ := by
  have digits := @parse?_split (Nat.toDigits 10 m) [] [] [] (false, 0)
    (fun c hc => Nat.isDigit_of_mem_toDigits (by decide) (by decide) hc) Nat.toDigits_ne_nil
    (leading_toDigits m) (by simp) rfl rfl rfl negative
  rwa [List.append_nil] at digits

theorem ofDigits_toDigits (m : Nat) : Decimal.ofDigits (Nat.toDigits 10 m) = m :=
  Nat.ofDigitChars_toDigits (by decide) (by decide)

def Ranged (m : Int) : Prop := -2 ^ 63 ≤ m ∧ m ≤ wordMax

theorem read?_intText {m : Int} (h : Ranged m) : read? (intText m) = some (.int m) := by
  have word : wordMax = 2 ^ 64 - 1 := by decide
  obtain ⟨lower, upper⟩ := h
  cases m with
  | ofNat m =>
    have parsed := parse?_toDigits m false
    have small : m ≤ wordMax := Int.ofNat_le.mp upper
    simp only [Bool.false_eq_true, if_false] at parsed
    simp [read?, intText, parsed, value, ofDigits_toDigits, small]
  | negSucc m =>
    have parsed := parse?_toDigits (m + 1) true
    have small : m + 1 ≤ wordMax / 2 + 1 := by omega
    simp only [if_true] at parsed
    simp [read?, intText, parsed, value, ofDigits_toDigits, small]
    omega

end Numeral

end Json

end QuestionSynthesis
