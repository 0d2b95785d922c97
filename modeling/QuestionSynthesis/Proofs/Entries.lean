import Mathlib.Data.List.Induction
import QuestionSynthesis.Entries

/-!
# Maps as sorted lists

Entering pairs gives a sorted list (`ofPairs_sorted`) in which every name has the value of the last
pair that bears it (`get?_ofPairs_iff`). Sorted lists with the same answers are the same list
(`Sorted.ext`), and a sorted list is what its own pairs give when they are entered
(`Sorted.ofPairs_perm`).
-/

namespace QuestionSynthesis

namespace Entries

variable {α β : Type} {m m' : Entries α} {pairs : List (String × α)} {name key : String} {a : α}

theorem mem_insert {p : String × α} (h : p ∈ insert name a m) : p = (name, a) ∨ p ∈ m := by
  induction m with
  | nil => exact .inl (List.mem_singleton.mp h)
  | cons q m ih =>
    obtain ⟨k, b⟩ := q
    rw [insert] at h
    split at h
    · exact List.mem_cons.mp h
    · split at h
      · exact (List.mem_cons.mp h).imp_right (List.mem_cons_of_mem _)
      · rcases List.mem_cons.mp h with rfl | later
        · exact .inr (List.mem_cons_self ..)
        · exact (ih later).imp_right (List.mem_cons_of_mem _)

theorem Sorted.insert (h : Sorted m) (name : String) (a : α) : Sorted (insert name a m) := by
  induction m with
  | nil => exact List.pairwise_singleton ..
  | cons q m ih =>
    obtain ⟨k, b⟩ := q
    obtain ⟨above, rest⟩ := List.pairwise_cons.mp h
    rw [Entries.insert]
    split
    · next less =>
      refine List.pairwise_cons.mpr ⟨fun p hp => ?_, h⟩
      rcases List.mem_cons.mp hp with rfl | later
      · exact less
      · exact String.lt_trans less (above p later)
    · split
      · next notLess same =>
        subst same
        exact List.pairwise_cons.mpr ⟨above, rest⟩
      · next notLess other =>
        refine List.pairwise_cons.mpr ⟨fun p hp => ?_, ih rest⟩
        rcases mem_insert hp with rfl | later
        · exact Std.lt_of_le_of_ne (String.not_lt.mp notLess) (Ne.symm other)
        · exact above p later

theorem get?_insert (name : String) (a : α) (m : Entries α) (key : String) :
    get? key (insert name a m) = if name = key then some a else get? key m := by
  induction m with
  | nil => rfl
  | cons q m ih =>
    obtain ⟨k, b⟩ := q
    rw [insert]
    split
    · rfl
    · split
      · next notLess same =>
        subst same
        simp only [get?]
        split <;> rfl
      · next notLess other =>
        simp only [get?, ih]
        by_cases hk : k = key
        · subst hk
          simp [other]
        · simp [hk]

theorem ofPairs_concat (pairs : List (String × α)) (p : String × α) :
    ofPairs (pairs ++ [p]) = insert p.1 p.2 (ofPairs pairs) := by
  simp [ofPairs]

theorem ofPairs_sorted (pairs : List (String × α)) : Sorted (ofPairs pairs) := by
  induction pairs using List.reverseRecOn with
  | nil => exact List.Pairwise.nil
  | append_singleton pairs p ih =>
    rw [ofPairs_concat]
    exact ih.insert _ _

def IsLast (pairs : List (String × α)) (name : String) (a : α) : Prop :=
  ∃ before after, pairs = before ++ (name, a) :: after ∧ ∀ b, (name, b) ∉ after

theorem IsLast.mem (h : IsLast pairs name a) : (name, a) ∈ pairs := by
  obtain ⟨before, after, rfl, -⟩ := h
  simp

theorem isLast_concat {p : String × α} :
    IsLast (pairs ++ [p]) name a ↔ p = (name, a) ∨ p.1 ≠ name ∧ IsLast pairs name a := by
  constructor
  · rintro ⟨before, after, split, last⟩
    rcases List.eq_nil_or_concat after with rfl | ⟨after, q, rfl⟩
    · exact .inl (List.singleton_inj.mp (List.append_inj' split rfl).2)
    · rw [List.concat_eq_append, ← List.cons_append, ← List.append_assoc] at split
      obtain ⟨rfl, hq⟩ := List.append_inj' split rfl
      obtain rfl := List.singleton_inj.mp hq
      refine .inr ⟨?_, before, after, rfl, fun b hb => last b (by simp [hb])⟩
      rintro rfl
      exact last p.2 (by simp)
  · rintro (rfl | ⟨other, before, after, rfl, last⟩)
    · exact ⟨pairs, [], rfl, by simp⟩
    · refine ⟨before, after ++ [p], by simp, fun b hb => ?_⟩
      rcases List.mem_append.mp hb with hb | hb
      · exact last b hb
      · exact other (congrArg Prod.fst (List.mem_singleton.mp hb)).symm

theorem get?_ofPairs_iff : get? name (ofPairs pairs) = some a ↔ IsLast pairs name a := by
  induction pairs using List.reverseRecOn with
  | nil => simp [ofPairs, get?, IsLast]
  | append_singleton pairs p ih =>
    obtain ⟨k, b⟩ := p
    rw [ofPairs_concat, get?_insert, isLast_concat]
    by_cases hk : k = name
    · simp [hk]
    · simp [hk, ih]

theorem exists_isLast (h : (name, a) ∈ pairs) : ∃ b, IsLast pairs name b := by
  induction pairs using List.reverseRecOn with
  | nil => cases h
  | append_singleton pairs p ih =>
    by_cases hp : p.1 = name
    · exact ⟨p.2, isLast_concat.mpr (.inl (by rw [← hp]))⟩
    · rcases List.mem_append.mp h with earlier | same
      · obtain ⟨b, hb⟩ := ih earlier
        exact ⟨b, isLast_concat.mpr (.inr ⟨hp, hb⟩)⟩
      · exact absurd (congrArg Prod.fst (List.mem_singleton.mp same)).symm hp

theorem mem_of_get? (h : get? name m = some a) : (name, a) ∈ m := by
  induction m with
  | nil => cases h
  | cons q m ih =>
    obtain ⟨k, b⟩ := q
    rw [get?] at h
    split at h
    · next same =>
      cases h
      simp [same]
    · exact List.mem_cons_of_mem _ (ih h)

theorem Sorted.get?_iff (h : Sorted m) : get? name m = some a ↔ (name, a) ∈ m := by
  refine ⟨mem_of_get?, fun hmem => ?_⟩
  induction m with
  | nil => cases hmem
  | cons q m ih =>
    obtain ⟨above, rest⟩ := List.pairwise_cons.mp h
    rcases List.mem_cons.mp hmem with rfl | later
    · exact if_pos rfl
    · have less : q.1 < name := above (name, a) later
      have other : q.1 ≠ name := fun same => String.lt_irrefl name (same ▸ less)
      rw [get?, if_neg other]
      exact ih rest later

theorem Sorted.ext (h : Sorted m) (h' : Sorted m') (same : ∀ name, get? name m = get? name m') :
    m = m' := by
  have distinct : ∀ {l : Entries α}, Sorted l → l.Nodup := fun hl =>
    hl.imp fun hpq => by
      rintro rfl
      exact String.lt_irrefl _ hpq
  have perm : m.Perm m' := by
    refine (List.perm_ext_iff_of_nodup (distinct h) (distinct h')).mpr fun p => ?_
    rw [← h.get?_iff, ← h'.get?_iff, same]
  have sorted : m.Pairwise fun p q => p.1 < q.1 := h
  exact perm.eq_of_pairwise (fun p q _ _ hpq hqp => absurd hqp (String.lt_asymm hpq)) sorted h'

theorem Sorted.ofPairs_perm (h : Sorted m) (order : pairs.Perm m) : ofPairs pairs = m := by
  refine (ofPairs_sorted pairs).ext h fun name => Option.ext fun a => ?_
  rw [get?_ofPairs_iff, h.get?_iff]
  refine ⟨fun last => order.mem_iff.mp last.mem, fun hmem => ?_⟩
  -- a name is borne by one pair only, so the last one that bears it is that pair
  obtain ⟨b, hb⟩ := exists_isLast (order.mem_iff.mpr hmem)
  have hget : get? name m = some b := h.get?_iff.mpr (order.mem_iff.mp hb.mem)
  rw [h.get?_iff.mpr hmem] at hget
  cases hget
  exact hb

theorem IsLast.unique {b : α} (h : IsLast pairs name a) (h' : IsLast pairs name b) : a = b := by
  rw [← get?_ofPairs_iff] at h h'
  exact Option.some.inj (h.symm.trans h')

theorem insert_map (f : α → β) (name : String) (a : α) (m : Entries α) :
    insert name (f a) (m.map fun p => (p.1, f p.2)) =
      (insert name a m).map fun p => (p.1, f p.2) := by
  induction m with
  | nil => rfl
  | cons q m ih =>
    obtain ⟨k, b⟩ := q
    simp only [List.map_cons, insert]
    split
    · rfl
    · split
      · rfl
      · simp [ih]

theorem ofPairs_map (f : α → β) (pairs : List (String × α)) :
    Entries.ofPairs (pairs.map fun p => (p.1, f p.2)) =
      (Entries.ofPairs pairs).map fun p => (p.1, f p.2) := by
  induction pairs using List.reverseRecOn with
  | nil => rfl
  | append_singleton pairs p ih =>
    rw [List.map_append, List.map_singleton, ofPairs_concat, ofPairs_concat, ih]
    exact insert_map f p.1 p.2 _

theorem get?_map (f : α → β) (m : Entries α) (name : String) :
    get? name (m.map fun p => (p.1, f p.2)) = (get? name m).map f := by
  induction m with
  | nil => rfl
  | cons q m ih =>
    simp only [List.map_cons, get?, ih]
    split <;> rfl

theorem isLast_map {f : α → β} {b : β} :
    IsLast (pairs.map fun p => (p.1, f p.2)) name b ↔ ∃ a, IsLast pairs name a ∧ f a = b := by
  simp only [← get?_ofPairs_iff, ofPairs_map, get?_map, Option.map_eq_some_iff]

end Entries

end QuestionSynthesis
