import QuestionSynthesis.Proofs.Binary64.Text
import QuestionSynthesis.Timestamp

/-!
# Moments that read back

Every field of a moment is written in front of a character that ends it, and is read from there as
it was (`number?_padded`, `year?_yearText`, `nano?_fractionText`). A moment is valid if its date
exists, its second is one of a day, and its nanoseconds are those of this second or of a leap second
after it. Just the valid moments come back from their texts (`readsBack_iff`).
-/

namespace QuestionSynthesis

theorem Date.lt_hundred {d : Date} (h : d.isValid = true) : d.month < 100 ∧ d.day < 100 := by
  have days : daysInMonth d.year d.month ≤ 31 := by
    unfold daysInMonth
    split_ifs <;> decide
  simp only [isValid, Bool.and_eq_true, decide_eq_true_eq] at h
  omega

namespace Timestamp

variable {n width : ℕ} {ds r : List Char}

theorem digits_padded (width n : ℕ) : ∀ c ∈ padded width n, c.isDigit = true :=
  List.forall_mem_append.mpr ⟨Binary64.digits_zeros _, Binary64.digits_toDigits n⟩

theorem padded_ne_nil (width n : ℕ) : padded width n ≠ [] :=
  List.append_ne_nil_of_right_ne_nil _ Nat.toDigits_ne_nil

theorem ofDigits_padded (width n : ℕ) : Decimal.ofDigits (padded width n) = n := by
  rw [padded, Binary64.ofDigits_append, Binary64.ofDigits_zeros, Nat.mul_zero, Nat.zero_add,
    Json.Numeral.ofDigits_toDigits]

theorem length_padded (pos : 0 < width) (h : n < 10 ^ width) : (padded width n).length = width := by
  have fits := (Nat.length_toDigits_le_iff (by decide) pos).mpr h
  rw [padded, List.length_append, List.length_replicate, Nat.sub_add_cancel fits]

theorem number?_digits (all : ∀ c ∈ ds, c.isDigit = true) (nonempty : ds ≠ []) (fits : ds.length ≤ width)
    (stop : ∀ c ∈ (r.take (width - ds.length)).head?, c.isDigit = false) :
    number? width (ds ++ r) = some (Decimal.ofDigits ds, r) := by
  obtain ⟨digits, -⟩ := Json.Numeral.takeWhile_digits all _ stop
  have scan : ((ds ++ r).take width).takeWhile Char.isDigit = ds := by
    rw [List.take_append, List.take_of_length_le fits, digits]
  simp [number?, scan, nonempty]

theorem number?_padded (pos : 0 < width) (h : n < 10 ^ width) (r : List Char) :
    number? width (padded width n ++ r) = some (n, r) := by
  have length := length_padded pos h
  rw [number?_digits (digits_padded width n) (padded_ne_nil width n) length.le (by simp [length]),
    ofDigits_padded]

theorem trimLeft_digits (all : ∀ c ∈ ds, c.isDigit = true) (nonempty : ds ≠ []) (r : List Char) :
    Text.trimLeft (ds ++ r) = ds ++ r := by
  obtain ⟨c, cs, rfl⟩ := List.exists_cons_of_ne_nil nonempty
  exact Text.trimLeft_cons (Text.isBlank_of_isDigit (all c List.mem_cons_self)) (cs ++ r)

theorem field?_padded (pos : 0 < width) (h : n < 10 ^ width) (r : List Char) :
    field? width (padded width n ++ r) = some (n, r) := by
  rw [field?, trimLeft_digits (digits_padded width n) (padded_ne_nil width n), number?_padded pos h]

theorem separator?_cons {c : Char} (visible : Text.isBlank c = false) (r : List Char) :
    separator? c (c :: r) = some r := by
  simp [separator?, Text.trimLeft_cons visible r]

theorem year?_four (h : n < 10 ^ 4) (r : List Char) : year? (padded 4 n ++ r) = some ((n : ℤ), r) := by
  have trim := trimLeft_digits (digits_padded 4 n) (padded_ne_nil 4 n) r
  have number := number?_padded (by decide) h r
  obtain ⟨c, cs, digits, digit⟩ := Binary64.numeric_of_all (digits_padded 4 n) (padded_ne_nil 4 n) r
  rw [digits] at trim number ⊢
  unfold year?
  rw [trim]
  split
  next equal => exact absurd digit (by rw [(List.cons.inj equal).1]; decide)
  next equal => exact absurd digit (by rw [(List.cons.inj equal).1]; decide)
  next => rw [number]; rfl

theorem number?_signed (n : ℕ) (r : List Char) :
    number? (padded 4 n ++ '-' :: r).length (padded 4 n ++ '-' :: r) = some (n, '-' :: r) := by
  rw [number?_digits (digits_padded 4 n) (padded_ne_nil 4 n) (by simp) (by simp), ofDigits_padded]

theorem year?_yearText (y : ℤ) (r : List Char) :
    year? (yearText y ++ '-' :: r) = some (y, '-' :: r) := by
  unfold yearText
  split_ifs with plain negative
  · have four : y.toNat < 10 ^ 4 := by omega
    rw [year?_four four, Int.toNat_of_nonneg plain.1]
  · have value : -(y.natAbs : ℤ) = y := by omega
    rw [List.cons_append, year?, Text.trimLeft_cons rfl]
    simp only [number?_signed, Option.map_some, value]
  · have value : (y.natAbs : ℤ) = y := by omega
    rw [List.cons_append, year?, Text.trimLeft_cons rfl]
    simp only [number?_signed, Option.map_some, value]

theorem nano?_point {m : ℕ} (pos : 0 < width) (places : width ≤ 9) (h : n < 10 ^ width)
    (zeros : n * 10 ^ (9 - width) = m) :
    nano? ('.' :: padded width n ++ ['Z']) = some (m, ['Z']) := by
  have length := length_padded pos h
  have stop : ∀ c ∈ (['Z'].take (9 - (padded width n).length)).head?, c.isDigit = false := by
    intro c hc
    rw [List.mem_singleton.mp (List.mem_of_mem_take (List.mem_of_mem_head? hc))]
    rfl
  have number : number? 9 (padded width n ++ ['Z']) = some (n, ['Z']) := by
    rw [number?_digits (digits_padded width n) (padded_ne_nil width n) (length.trans_le places) stop,
      ofDigits_padded]
  have used : (padded width n ++ ['Z']).length - ['Z'].length = width := by simp [length]
  rw [List.cons_append, nano?, ← zeros]
  simp only [number, Option.map_some, used]
  rfl

theorem nano?_fractionText (h : n < 1000000000) :
    nano? (fractionText n ++ ['Z']) = some (n, ['Z']) := by
  unfold fractionText
  split_ifs with none three six
  · rw [none]
    rfl
  · exact nano?_point (by decide) (by decide) (by omega) (by omega)
  · exact nano?_point (by decide) (by decide) (by omega) (by omega)
  · exact nano?_point (by decide) (by decide) (by omega) (by omega)

theorem field?_two (h : n < 100) (r : List Char) : field? 2 (padded 2 n ++ r) = some (n, r) :=
  field?_padded (by decide) h r

theorem date?_text {d : Date} (h : d.isValid = true) (r : List Char) :
    date? (yearText d.year ++ '-' :: (padded 2 d.month ++ '-' :: (padded 2 d.day ++ r))) =
      some (d, r) := by
  obtain ⟨month, day⟩ := Date.lt_hundred h
  have dash : ∀ r, separator? '-' ('-' :: r) = some r := separator?_cons (by decide)
  simp only [date?, Option.bind_eq_bind, Option.bind_some, year?_yearText, dash, field?_two month,
    field?_two day]
  rfl

structure Clock.InRange (c : Clock) : Prop where
  hour : c.hour < 24
  minute : c.minute < 60
  second : c.second ≤ 60
  nano : c.nano < 1000000000

theorem clock?_text {c : Clock} (h : c.InRange) (universal : c.offset = 0) :
    clock? (padded 2 c.hour ++ ':' :: (padded 2 c.minute ++ ':' :: (padded 2 c.second ++
      (fractionText c.nano ++ ['Z'])))) = some (c, []) := by
  have hour := h.hour.trans (show 24 < 100 by decide)
  have minute := h.minute.trans (show 60 < 100 by decide)
  have second := h.second.trans_lt (show 60 < 100 by decide)
  have colon : ∀ r, separator? ':' (':' :: r) = some r := separator?_cons (by decide)
  have offset : offset? (Text.trimLeft ['Z']) = some (c.offset, []) := by rw [universal]; rfl
  simp only [clock?, Option.bind_eq_bind, Option.bind_some, colon, field?_two hour,
    field?_two minute, field?_two second, nano?_fractionText h.nano, offset]
  rfl

/-- The date exists, the second is one of a day, and the nanoseconds are those of a second, or of a
leap second after the last second of a minute. -/
structure Valid (t : Timestamp) : Prop where
  date : t.date.isValid = true
  second : t.second < 86400
  nano : t.nano < 1000000000 ∨ t.second % 60 = 59 ∧ t.nano < 2000000000

def ReadsBack (t : Timestamp) : Prop := parse? t.text = some t

theorem earlier_zero {t : Timestamp} (h : t.second < 86400) : t.earlier 0 = t := by
  have before : ¬ ((t.second : ℤ) < 0) := by omega
  have after : ¬ (86400 ≤ (t.second : ℤ)) := by omega
  simp [earlier, before, after]

theorem Clock.moment?_universal {c : Clock} {date : Date} (valid : date.isValid = true)
    (h : c.InRange) (universal : c.offset = 0) : c.moment? date = some (c.on date) := by
  obtain ⟨hour, minute, second, -⟩ := h
  have day : (c.on date).second < 86400 := by
    simp only [on]
    split_ifs <;> omega
  have shown : (c.on date).date.isValid = true := valid
  simp [moment?, valid, hour, minute, second, universal, earlier_zero day, shown]

theorem parse?_fields {date : Date} {c : Clock} (valid : date.isValid = true) (h : c.InRange)
    (universal : c.offset = 0) :
    parse? (yearText date.year ++ '-' :: padded 2 date.month ++ '-' :: padded 2 date.day ++
      'T' :: padded 2 c.hour ++ ':' :: padded 2 c.minute ++ ':' :: padded 2 c.second ++
      fractionText c.nano ++ ['Z']) = some (c.on date) := by
  simp only [List.append_assoc, List.cons_append, parse?, Option.bind_eq_bind, date?_text valid,
    Option.bind_some, afterMark?, clock?_text h universal, c.moment?_universal valid h universal]
  rfl

def clock (t : Timestamp) : Clock where
  hour := t.second / 3600
  minute := t.second / 60 % 60
  second := t.second % 60 + if 1000000000 ≤ t.nano then 1 else 0
  nano := if 1000000000 ≤ t.nano then t.nano - 1000000000 else t.nano
  offset := 0

theorem Valid.on_clock {t : Timestamp} (h : t.Valid) : t.clock.on t.date = t := by
  obtain ⟨date, second, nano⟩ := t
  obtain ⟨-, -, nanos⟩ := h
  simp only [clock, Clock.on] at nanos ⊢
  by_cases leap : 1000000000 ≤ nano
  · have last : second % 60 = 59 := by omega
    simp only [if_pos leap, last, ↓reduceIte, mk.injEq, true_and]
    omega
  · have plain : ¬ second % 60 + 0 = 60 := by omega
    simp only [if_neg leap, if_neg plain, mk.injEq, true_and, and_true]
    omega

theorem Valid.inRange {t : Timestamp} (h : t.Valid) : t.clock.InRange := by
  obtain ⟨-, day, nanos⟩ := h
  constructor <;> simp only [clock]
  · omega
  · exact Nat.mod_lt _ (by decide)
  · split_ifs <;> omega
  · split_ifs <;> omega

theorem Valid.readsBack {t : Timestamp} (h : t.Valid) : t.ReadsBack := by
  have read := parse?_fields h.date h.inRange rfl
  rw [h.on_clock] at read
  exact read

theorem ofDigits_lt (all : ∀ c ∈ ds, c.isDigit = true) : Decimal.ofDigits ds < 10 ^ ds.length := by
  induction ds using List.reverseRecOn with
  | nil => decide
  | append_singleton ds c ih =>
    obtain ⟨digits, digit⟩ := List.forall_mem_append.mp all
    have value : c.toNat - '0'.toNat < 10 := by
      have range := digit c List.mem_cons_self
      simp only [Char.isDigit, ge_iff_le, Bool.and_eq_true, decide_eq_true_eq,
        UInt32.le_iff_toNat_le] at range
      change c.toNat - 48 < 10
      have upper : c.toNat ≤ 57 := range.2
      omega
    have last : Decimal.ofDigits [c] = c.toNat - '0'.toNat := Nat.zero_add _
    have smaller := ih digits
    rw [Binary64.ofDigits_append, last, List.length_append, List.length_singleton, pow_one, pow_succ]
    omega

theorem number?_lt {s : List Char} (h : number? width s = some (n, r)) :
    n < 10 ^ (s.length - r.length) ∧ s.length - r.length ≤ width := by
  simp only [number?, Option.ite_none_left_eq_some, Option.some.injEq, Prod.mk.injEq] at h
  obtain ⟨-, rfl, rfl⟩ := h
  have few := (List.takeWhile_prefix (p := Char.isDigit) (l := s.take width)).length_le
  rw [List.length_take] at few
  have used : s.length - (s.drop ((s.take width).takeWhile Char.isDigit).length).length =
      ((s.take width).takeWhile Char.isDigit).length := by
    rw [List.length_drop]
    omega
  rw [used]
  exact ⟨ofDigits_lt fun c hc => List.mem_takeWhile_imp hc, by omega⟩

theorem nano?_lt {s : List Char} (h : nano? s = some (n, r)) : n < 1000000000 := by
  unfold nano? at h
  split at h
  · obtain ⟨⟨m, t⟩, number, h⟩ := Option.map_eq_some_iff.mp h
    obtain ⟨rfl, -⟩ := Prod.mk.inj h
    obtain ⟨lt, places⟩ := number?_lt number
    calc
      m * 10 ^ (9 - _) < 10 ^ _ * 10 ^ (9 - _) := Nat.mul_lt_mul_of_pos_right lt (by positivity)
      _ = 10 ^ 9 := by rw [← pow_add, Nat.add_sub_cancel' places]
  · cases h
    decide

theorem offsetSign?_eq {s : List Char} {sign : ℤ} (h : offsetSign? s = some (sign, r)) :
    sign = 1 ∨ sign = -1 := by
  unfold offsetSign? at h
  split at h <;> cases h
  · exact .inl rfl
  · exact .inr rfl
  · exact .inr rfl

def Minutes (seconds : ℤ) : Prop := ∃ m : ℤ, seconds = 60 * m ∧ -1440 < m ∧ m < 1440

theorem offset?_minutes {s : List Char} {o : ℤ} (h : offset? s = some (o, r)) : Minutes o := by
  unfold offset? at h
  split at h
  · cases h
    exact ⟨0, rfl, by decide, by decide⟩
  · cases h
    exact ⟨0, rfl, by decide, by decide⟩
  split_ifs at h with utc
  · cases h
    exact ⟨0, rfl, by decide, by decide⟩
  · obtain ⟨⟨sign, s⟩, signed, h⟩ := Option.bind_eq_some_iff.mp h
    obtain ⟨⟨hours, s⟩, -, h⟩ := Option.bind_eq_some_iff.mp h
    obtain ⟨⟨minutes, s⟩, -, h⟩ := Option.bind_eq_some_iff.mp h
    obtain ⟨range, h⟩ := Option.ite_none_right_eq_some.mp h
    cases h
    refine ⟨sign * (60 * hours + minutes), by push_cast; ring, ?_⟩
    rcases offsetSign?_eq signed with rfl | rfl <;> omega

/-- The offset moves a moment by whole minutes, and to the next day or the day before at most. -/
theorem earlier_valid {t : Timestamp} {o : ℤ} (second : t.second < 86400)
    (nano : t.nano < 1000000000 ∨ t.second % 60 = 59 ∧ t.nano < 2000000000) (offset : Minutes o)
    (date : (t.earlier o).date.isValid = true) : (t.earlier o).Valid := by
  obtain ⟨m, rfl, lower, upper⟩ := offset
  have shifted : (t.earlier (60 * m)).second < 86400 ∧
      (t.earlier (60 * m)).second % 60 = t.second % 60 ∧ (t.earlier (60 * m)).nano = t.nano := by
    unfold earlier
    dsimp only
    split_ifs <;> dsimp only <;> omega
  obtain ⟨day, minute, same⟩ := shifted
  exact ⟨date, day, by rwa [minute, same]⟩

theorem Clock.moment?_valid {c : Clock} {date : Date} {t : Timestamp} (nanos : c.nano < 1000000000)
    (offset : Minutes c.offset) (h : c.moment? date = some t) : t.Valid := by
  obtain ⟨range, h⟩ := Option.ite_none_right_eq_some.mp h
  obtain ⟨valid, h⟩ := Option.ite_none_right_eq_some.mp h
  obtain rfl := Option.some.inj h
  simp only [Bool.and_eq_true, decide_eq_true_eq] at range
  refine earlier_valid ?_ ?_ offset valid
  · simp only [Clock.on]
    split_ifs <;> omega
  · simp only [Clock.on]
    split_ifs <;> omega

theorem clock?_bounds {s : List Char} {c : Clock} (h : clock? s = some (c, r)) :
    c.nano < 1000000000 ∧ Minutes c.offset := by
  obtain ⟨⟨hour, s⟩, -, h⟩ := Option.bind_eq_some_iff.mp h
  obtain ⟨s, -, h⟩ := Option.bind_eq_some_iff.mp h
  obtain ⟨⟨minute, s⟩, -, h⟩ := Option.bind_eq_some_iff.mp h
  obtain ⟨s, -, h⟩ := Option.bind_eq_some_iff.mp h
  obtain ⟨⟨second, s⟩, -, h⟩ := Option.bind_eq_some_iff.mp h
  obtain ⟨⟨nano, s⟩, nanos, h⟩ := Option.bind_eq_some_iff.mp h
  obtain ⟨⟨offset, s⟩, offsets, h⟩ := Option.bind_eq_some_iff.mp h
  cases h
  exact ⟨nano?_lt nanos, offset?_minutes offsets⟩

theorem valid_of_parse? {s : List Char} {t : Timestamp} (h : parse? s = some t) : t.Valid := by
  obtain ⟨⟨date, s⟩, -, h⟩ := Option.bind_eq_some_iff.mp h
  obtain ⟨s, -, h⟩ := Option.bind_eq_some_iff.mp h
  obtain ⟨⟨c, s⟩, clock, h⟩ := Option.bind_eq_some_iff.mp h
  obtain ⟨-, moment⟩ := Option.ite_none_right_eq_some.mp h
  obtain ⟨nanos, offset⟩ := clock?_bounds clock
  exact c.moment?_valid nanos offset moment

theorem readsBack_iff {t : Timestamp} : t.ReadsBack ↔ t.Valid :=
  ⟨valid_of_parse?, Valid.readsBack⟩

end Timestamp

end QuestionSynthesis
