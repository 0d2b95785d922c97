import QuestionSynthesis.Proofs.Corpus.Reads
import QuestionSynthesis.Proofs.Property.Equality

/-!
# Comparison of properties

Greater and less compare numeric views, equality is loose; still the three of them go together like
the comparisons of one order, with no more than one of them holding (`comparison_order`). Integers
are compared as the doubles nearest to them, which tells them apart as long as one of the two is
below `2 ^ 53` in absolute value (`integers_compare`).
-/

namespace QuestionSynthesis

namespace Value

variable {a b : Value} {x y : Binary64}

theorem number?_of_same (h : a.same b = true) (ha : a.number? = some x) (hb : b.number? = some y) :
    x = y ∨ x.eq y = true := by
  cases a <;> cases b <;> simp_all [same, number?]

theorem looseEq_of_number? (ha : a.number? = some x) (hb : b.number? = some y)
    (number : x.isNaN = false) : a.looseEq b = true ↔ x.eq y = true := by
  rw [looseEq_iff]
  constructor
  · rintro (same | ⟨x', y', hx, hy, equal⟩ | ⟨none | none, -⟩)
    · rcases number?_of_same same ha hb with rfl | equal
      · exact x.eq_self_iff.mpr number
      · exact equal
    · rw [ha] at hx
      rw [hb] at hy
      cases hx
      cases hy
      exact equal
    · simp [ha] at none
    · simp [hb] at none
  · exact fun equal => .inr (.inl ⟨x, y, ha, hb, equal⟩)

end Value

namespace Comparison

variable {a b c : Value} {x y : Binary64}

theorem gt_holds_iff : gt.holds a b = true ↔
    ∃ x y, a.number? = some x ∧ b.number? = some y ∧ y.lt x = true := by
  unfold holds
  cases a.number? <;> cases b.number? <;> simp

theorem lt_holds_iff : lt.holds a b = true ↔
    ∃ x y, a.number? = some x ∧ b.number? = some y ∧ x.lt y = true := by
  unfold holds
  cases a.number? <;> cases b.number? <;> simp

theorem gt_holds (a b : Value) : gt.holds a b = lt.holds b a := by
  unfold holds
  cases a.number? <;> cases b.number? <;> rfl

theorem lt_trans (h : lt.holds a b = true) (h' : lt.holds b c = true) :
    lt.holds a c = true := by
  obtain ⟨x, y, ha, hb, less⟩ := lt_holds_iff.mp h
  obtain ⟨y', z, hb', hc, less'⟩ := lt_holds_iff.mp h'
  cases hb.symm.trans hb'
  exact lt_holds_iff.mpr ⟨x, z, ha, hc, Binary64.lt_trans less less'⟩

theorem not_gt_of_lt (h : lt.holds a b = true) : gt.holds a b = false := by
  obtain ⟨x, y, ha, hb, less⟩ := lt_holds_iff.mp h
  simp [holds, ha, hb, Binary64.not_lt_of_lt less]

theorem not_eq_of_lt (h : lt.holds a b = true) : eq.holds a b = false := by
  obtain ⟨x, y, ha, hb, less⟩ := lt_holds_iff.mp h
  have number : x.isNaN = false := (Binary64.lt_iff.mp less).1
  rw [holds, Bool.eq_false_iff, ne_eq, Value.looseEq_of_number? ha hb number]
  exact ne_true_of_eq_false (Binary64.not_eq_of_lt less)

theorem eq_holds_comm (a b : Value) : eq.holds a b = eq.holds b a := Value.looseEq_comm a b

theorem not_eq_of_gt (h : gt.holds a b = true) : eq.holds a b = false := by
  rw [gt_holds] at h
  rw [eq_holds_comm, not_eq_of_lt h]

theorem holds_unique {p q : Comparison} (hp : p.holds a b = true) (hq : q.holds a b = true) :
    p = q := by
  cases p with
  | gt =>
    cases q with
    | gt => rfl
    | lt => exact absurd hp (ne_true_of_eq_false (not_gt_of_lt hq))
    | eq => exact absurd hq (ne_true_of_eq_false (not_eq_of_gt hp))
  | lt =>
    cases q with
    | gt => exact absurd hq (ne_true_of_eq_false (not_gt_of_lt hp))
    | lt => rfl
    | eq => exact absurd hq (ne_true_of_eq_false (not_eq_of_lt hp))
  | eq =>
    cases q with
    | gt => exact absurd hp (ne_true_of_eq_false (not_eq_of_gt hq))
    | lt => exact absurd hp (ne_true_of_eq_false (not_eq_of_lt hq))
    | eq => rfl

theorem exists_holds (ha : a.number? = some x) (hb : b.number? = some y) (hx : x.isNaN = false)
    (hy : y.isNaN = false) : ∃ p : Comparison, p.holds a b = true := by
  rcases Binary64.lt_trichotomy hx hy with less | equal | greater
  · exact ⟨lt, lt_holds_iff.mpr ⟨x, y, ha, hb, less⟩⟩
  · exact ⟨eq, (Value.looseEq_of_number? ha hb hx).mpr equal⟩
  · exact ⟨gt, gt_holds_iff.mpr ⟨x, y, ha, hb, greater⟩⟩

/-- The comparisons of values form one order. -/
theorem comparison_order (a b c : Value) :
    (∀ p q : Comparison, p.holds a b = true → q.holds a b = true → p = q) ∧
    gt.holds a b = lt.holds b a ∧
    (∀ x y, a.number? = some x → b.number? = some y → x.isNaN = false → y.isNaN = false →
      ∃! p : Comparison, p.holds a b = true) ∧
    (a.number? = none ∨ b.number? = none → gt.holds a b = false ∧ lt.holds a b = false) ∧
    (gt.holds a b = true → gt.holds b c = true → gt.holds a c = true) ∧
    (lt.holds a b = true → lt.holds b c = true → lt.holds a c = true) := by
  refine ⟨fun p q => holds_unique, gt_holds a b, fun x y ha hb hx hy => ?_, fun none => ?_,
    fun first second => ?_, lt_trans⟩
  · obtain ⟨p, hp⟩ := exists_holds ha hb hx hy
    exact ⟨p, hp, fun q hq => holds_unique hq hp⟩
  · unfold holds
    rcases none with none | none
    · simp [none]
    · cases a.number? <;> simp [none]
  · rw [gt_holds] at *
    exact lt_trans second first

section

variable {m n : Int64}

theorem lt_int (m n : Int64) : lt.holds (.int m) (.int n) =
    (Binary64.ofInt m.toInt).lt (Binary64.ofInt n.toInt) := rfl

theorem eq_int (m n : Int64) : eq.holds (.int m) (.int n) =
    (Binary64.ofInt m.toInt).eq (Binary64.ofInt n.toInt) := by
  rw [Bool.eq_iff_iff]
  exact Value.looseEq_of_number? rfl rfl (Binary64.isNaN_ofInt _)

theorem ofInt_eq_iff (m n : Int64) :
    (Binary64.ofInt m.toInt).eq (Binary64.ofInt n.toInt) = true ↔
      (Binary64.ofInt m.toInt).position = (Binary64.ofInt n.toInt).position := by
  simp [Binary64.eq_iff, Binary64.isNaN_ofInt]

theorem ofInt_ne_iff (m n : Int64) :
    (Binary64.ofInt m.toInt).eq (Binary64.ofInt n.toInt) = false ↔
      (Binary64.ofInt m.toInt).position ≠ (Binary64.ofInt n.toInt).position := by
  rw [← Bool.not_eq_true, ofInt_eq_iff]

theorem lt_int_iff (m n : Int64) : lt.holds (.int m) (.int n) = true ↔
    m < n ∧ (Binary64.ofInt m.toInt).eq (Binary64.ofInt n.toInt) = false := by
  rw [lt_int, Binary64.lt_iff, ofInt_ne_iff, Int64.lt_iff_toInt_lt]
  simp only [Binary64.isNaN_ofInt, true_and]
  rcases lt_or_ge m.toInt n.toInt with less | more
  · have := Binary64.position_ofInt_mono less.le
    omega
  · have := Binary64.position_ofInt_mono more
    omega

theorem gt_int_iff (m n : Int64) : gt.holds (.int m) (.int n) = true ↔
    n < m ∧ (Binary64.ofInt m.toInt).eq (Binary64.ofInt n.toInt) = false := by
  rw [gt_holds, lt_int_iff, Binary64.eq_comm]

theorem ofInt_ne_of_small (h : m ≠ n) (small : m.toInt.natAbs < 2 ^ 53 ∨ n.toInt.natAbs < 2 ^ 53) :
    (Binary64.ofInt m.toInt).eq (Binary64.ofInt n.toInt) = false := by
  rw [ofInt_ne_iff]
  intro same
  rcases lt_trichotomy m.toInt n.toInt with less | equal | greater
  · exact (Binary64.position_ofInt_lt less small).ne same
  · exact h (Int64.toInt_inj.mp equal)
  · exact (Binary64.position_ofInt_lt greater small.symm).ne same.symm

theorem compare_small (small : m.toInt.natAbs < 2 ^ 53 ∨ n.toInt.natAbs < 2 ^ 53) :
    (gt.holds (.int m) (.int n) = true ↔ n < m) ∧
    (lt.holds (.int m) (.int n) = true ↔ m < n) ∧
    (eq.holds (.int m) (.int n) = true ↔ m = n) := by
  have differ : m ≠ n → (Binary64.ofInt m.toInt).eq (Binary64.ofInt n.toInt) = false :=
    fun h => ofInt_ne_of_small h small
  rw [gt_int_iff, lt_int_iff, eq_int]
  refine ⟨and_iff_left_of_imp fun h => differ ?_, and_iff_left_of_imp fun h => differ ?_, ?_⟩
  · rintro rfl
    exact Int64.lt_irrefl h
  · rintro rfl
    exact Int64.lt_irrefl h
  · refine ⟨fun equal => by_contra fun h => ?_, fun h => ?_⟩
    · exact absurd equal (ne_true_of_eq_false (differ h))
    · rw [h, ofInt_eq_iff]

theorem get?_of_mem_filterNodes {g : Graph} {key : String} {node : Node}
    (found : node ∈ g.filterNodes { property := some (key, .int m) })
    (has : node.get? key = some (.int n)) :
    (Binary64.ofInt n.toInt).eq (Binary64.ofInt m.toInt) = true := by
  have met := (NodeQuery.holds_iff _ node).mp (List.mem_filter.mp found).2
  obtain ⟨actual, hactual, equal⟩ := met.property key (.int m) rfl
  cases has.symm.trans hactual
  rwa [← eq_int]

end

/-- Integers are compared as the doubles nearest to them. -/
theorem integers_compare :
    (∀ m n : Int64,
      (gt.holds (.int m) (.int n) = true ↔
        n < m ∧ (Binary64.ofInt m.toInt).eq (Binary64.ofInt n.toInt) = false) ∧
      (lt.holds (.int m) (.int n) = true ↔
        m < n ∧ (Binary64.ofInt m.toInt).eq (Binary64.ofInt n.toInt) = false) ∧
      (m = n → eq.holds (.int m) (.int n) = true) ∧
      ((Binary64.ofInt m.toInt).eq (Binary64.ofInt n.toInt) = false →
        eq.holds (.int m) (.int n) = false)) ∧
    (∀ m n : Int64, m.toInt.natAbs < 2 ^ 53 ∨ n.toInt.natAbs < 2 ^ 53 →
      (gt.holds (.int m) (.int n) = true ↔ n < m) ∧
      (lt.holds (.int m) (.int n) = true ↔ m < n) ∧
      (eq.holds (.int m) (.int n) = true ↔ m = n)) ∧
    ∀ (g : Graph) (key : String) (m n : Int64) (node : Node),
      node ∈ g.filterNodes { property := some (key, .int m) } →
      node.get? key = some (.int n) →
        (Binary64.ofInt n.toInt).eq (Binary64.ofInt m.toInt) = true ∧
        (m.toInt.natAbs < 2 ^ 53 → n = m) := by
  refine ⟨fun m n => ⟨gt_int_iff m n, lt_int_iff m n, ?_, (eq_int m n).trans⟩,
    fun m n => compare_small, fun g key m n node found has => ?_⟩
  · rintro rfl
    rw [eq_int, ofInt_eq_iff]
  · have equal := get?_of_mem_filterNodes found has
    refine ⟨equal, fun small => ?_⟩
    exact (compare_small (.inr small)).2.2.mp ((eq_int n m).trans equal)

/-- Beyond `2 ^ 53` there are integers that are equal as doubles. -/
theorem large_integers_collide :
    (9007199254740992 : Int64) < 9007199254740993 ∧
    gt.holds (.int 9007199254740993) (.int 9007199254740992) = false ∧
    lt.holds (.int 9007199254740992) (.int 9007199254740993) = false ∧
    eq.holds (.int 9007199254740992) (.int 9007199254740993) = true := by
  decide +kernel

end Comparison

end QuestionSynthesis
