import QuestionSynthesis.Proofs.Binary64.Text
import QuestionSynthesis.Proofs.Property.RoundTrip

/-!
# Loose equality

Loose equality is decided in three stages, and which of them decides depends on both sides. What
holds them together is that the text of a value spells a number exactly if the value is numeric, and
then spells its number (`number?_text`).
-/

namespace QuestionSynthesis

namespace Binary64

theorem parse?_bracket {c : Char} (h : c = '[' ∨ c = '{') (r : List Char) :
    parse? (c :: r) = none := by
  rcases h with rfl | rfl <;> simp [parse?, unsigned?, decimal?, Decimal.fraction, Char.toLower, Char.isDigit]

end Binary64

namespace Value

variable {a b : Value}

theorem sameItems_comm {items : List Value} (each : ∀ v ∈ items, ∀ w : Value, v.same w = w.same v)
    (others : List Value) : sameItems items others = sameItems others items := by
  induction items generalizing others with
  | nil => cases others <;> rfl
  | cons v items ih =>
    obtain ⟨first, rest⟩ := List.forall_mem_cons.mp each
    cases others with
    | nil => rfl
    | cons w others => rw [sameItems, sameItems, first, ih rest]

theorem sameEntries_comm {entries : List (String × Value)}
    (each : ∀ e ∈ entries, ∀ w : Value, e.2.same w = w.same e.2) (others : List (String × Value)) :
    sameEntries entries others = sameEntries others entries := by
  induction entries generalizing others with
  | nil => cases others <;> rfl
  | cons e entries ih =>
    obtain ⟨first, rest⟩ := List.forall_mem_cons.mp each
    cases others with
    | nil => rfl
    | cons f others => rw [sameEntries, sameEntries, first, ih rest, Bool.beq_comm]

theorem same_comm (a b : Value) : a.same b = b.same a := by
  induction a using induct generalizing b with
  | list items each => cases b <;> simp only [same] ; exact sameItems_comm each _
  | map entries each => cases b <;> simp only [same]; exact sameEntries_comm each _
  | double x => cases b <;> simp only [same]; exact x.eq_comm _
  | _ => cases b <;> simp only [same]; try exact Bool.beq_comm

/-- A double that is not a number; a NaN within a list or a map does not count. -/
def IsNaN : Value → Prop
  | double x => x.isNaN = true
  | _ => False

theorem number?_ofList {s : List Char} (h : ∀ c ∈ s, Text.isBlank c = false) :
    (string (String.ofList s)).number? = Binary64.parse? s := by
  rw [number?, String.toList_ofList, Text.trim_of_visible h]

theorem number?_bracket {c : Char} (h : c = '[' ∨ c = '{') (r : List Char) :
    (string (String.ofList (c :: r))).number? = none := by
  have visible : Text.isBlank c = false := by rcases h with rfl | rfl <;> rfl
  rw [number?, String.toList_ofList, Text.trim_cons visible, Binary64.parse?_bracket h]

theorem number?_text (h : ¬ a.IsNaN) : (string a.plainText).number? = a.number? := by
  cases a with
  | null => decide
  | bool b => cases b <;> decide
  | int n =>
    exact (number?_ofList (Binary64.visible_toString _)).trans (Binary64.parse?_toString _)
  | double x =>
    have number : x.isNaN = false := Bool.eq_false_iff.mpr h
    exact (number?_ofList x.visible_text).trans (Binary64.parse?_text number)
  | string s => rfl
  | list items =>
    cases items with
    | nil => decide
    | cons v r => exact number?_bracket (.inl rfl) _
  | map entries =>
    cases entries with
    | nil => decide
    | cons e r => exact number?_bracket (.inr rfl) _

theorem plainText_double (x : Binary64) : (double x).plainText = x.text .plain :=
  String.ofList_toList

theorem isSome_number?_text (a : Value) :
    (string a.plainText).number?.isSome = a.number?.isSome := by
  by_cases nan : a.IsNaN
  · cases a with
    | double x =>
      have number : x.isNaN = true := nan
      have spelled : x.text .plain = "NaN" := by simp [Binary64.text, Binary64.unsignedText, number]
      rw [plainText_double, spelled]
      exact (by decide : (string "NaN").number?.isSome = true)
    | _ => exact nan.elim
  · rw [number?_text nan]

theorem isSome_number?_of_same (h : a.same b = true) : a.number?.isSome = b.number?.isSome := by
  cases a <;> cases b <;> simp_all [same, number?]

theorem looseEq_iff : a.looseEq b = true ↔ a.same b = true ∨
    (∃ x y, a.number? = some x ∧ b.number? = some y ∧ x.eq y = true) ∨
    ((a.number? = none ∨ b.number? = none) ∧ a.plainText = b.plainText) := by
  unfold looseEq
  cases a.same b <;> cases a.number? <;> cases b.number? <;> simp

theorem looseEq_comm (a b : Value) : a.looseEq b = b.looseEq a := by
  unfold looseEq
  rw [same_comm, Bool.beq_comm]
  cases a.number? <;> cases b.number? <;> simp only []
  rw [Binary64.eq_comm]

theorem looseEq_self (h : ¬ a.IsNaN) : a.looseEq a = true := by
  cases a with
  | double x =>
    exact looseEq_iff.mpr (.inl ((x.eq_self_iff).mpr (Bool.eq_false_iff.mpr h)))
  | int n => exact looseEq_iff.mpr (.inl (beq_self_eq_true n))
  | string s => exact looseEq_iff.mpr (.inl (beq_self_eq_true s))
  | _ => exact looseEq_iff.mpr (.inr (.inr ⟨.inl rfl, rfl⟩))

theorem looseEq_self_iff (a : Value) : a.looseEq a = true ↔ ¬ a.IsNaN := by
  refine ⟨fun equal nan => ?_, looseEq_self⟩
  cases a with
  | double x =>
    have differs : x.eq x = false :=
      Bool.eq_false_iff.mpr ((x.eq_self_iff).not.mpr (ne_false_of_eq_true nan))
    simp [looseEq, same, number?, differs] at equal
  | _ => exact nan

theorem looseEq_text (h : ¬ a.IsNaN) : a.looseEq (string a.plainText) = true := by
  cases a with
  | string s => exact looseEq_self h
  | int n =>
    have proper := (Binary64.eq_self_iff _).mpr (Binary64.isNaN_ofInt n.toInt)
    exact looseEq_iff.mpr (.inr (.inl ⟨_, _, rfl, number?_text h, proper⟩))
  | double x =>
    have proper := x.eq_self_iff.mpr (Bool.eq_false_iff.mpr h)
    exact looseEq_iff.mpr (.inr (.inl ⟨_, _, rfl, number?_text h, proper⟩))
  | _ => exact looseEq_iff.mpr (.inr (.inr ⟨.inl rfl, rfl⟩))

theorem not_looseEq_of_number? (ha : a.number?.isSome = true) (hb : b.number? = none) :
    a.looseEq b = false := by
  rw [Bool.eq_false_iff, ne_eq, looseEq_iff]
  rintro (same | ⟨x, y, -, number, -⟩ | ⟨-, text⟩)
  · have := isSome_number?_of_same same
    simp [ha, hb] at this
  · simp [hb] at number
  · have := isSome_number?_text a
    rw [text, isSome_number?_text b] at this
    simp [ha, hb] at this

/-- Loose equality is symmetric, it holds of every value and itself that is no NaN, and of the value
and its own text; numeric values never equal others. -/
theorem looseEq_laws :
    (∀ a b : Value, a.looseEq b = b.looseEq a) ∧
    (∀ a : Value, a.looseEq a = true ↔ ¬ a.IsNaN) ∧
    (∀ a : Value, ¬ a.IsNaN →
      a.looseEq (string a.plainText) = true ∧ (string a.plainText).looseEq a = true) ∧
    ∀ a b : Value, a.number?.isSome = true → b.number? = none →
      a.looseEq b = false ∧ b.looseEq a = false := by
  refine ⟨looseEq_comm, looseEq_self_iff, fun a number => ?_, fun a b ha hb => ?_⟩
  · exact ⟨looseEq_text number, (looseEq_comm _ _).trans (looseEq_text number)⟩
  · have apart := not_looseEq_of_number? ha hb
    exact ⟨apart, (looseEq_comm _ _).trans apart⟩

end Value

end QuestionSynthesis
