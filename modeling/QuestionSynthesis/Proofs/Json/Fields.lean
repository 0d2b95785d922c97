import Mathlib.Data.List.Nodup
import QuestionSynthesis.Proofs.Json.Reader

/-!
# Objects that give some of the fields of a record

Where all fields have defaults, an object may give any of them, in any order and among members of
other names (`HasField`, `HasGroup`). It is opened if no field stands twice, and what is read of a
field is the one value given for it, or else its default (`HasField.orDefault`,
`HasGroup.orDefault`).
-/

namespace QuestionSynthesis

namespace Json

variable {α : Type} {members : List (String × Json)} {names : List String} {name : String}
  {room : Nat} {given : Bool} {value : Json → Prop}

def valuesOf (members : List (String × Json)) (name : String) : List Json :=
  (members.filter (·.1 == name)).map Prod.snd

/-- A field that is given has one value, which is of the kind; one that is not given has none. -/
inductive HasField (members : List (String × Json)) (name : String) (value : Json → Prop) :
    Bool → Prop where
  | given {j} (only : valuesOf members name = [j]) (kind : value j) :
      HasField members name value true
  | absent (none : valuesOf members name = []) : HasField members name value false

theorem HasField.length_le (h : HasField members name value given) :
    (valuesOf members name).length ≤ 1 := by
  cases h with
  | given only kind => simp [only]
  | absent none => simp [none]

theorem lookup_cons_eq (m : String × Json) (members : List (String × Json)) (name : String) :
    (m :: members).lookup name = if m.1 = name then some m.2 else members.lookup name := by
  by_cases same : m.1 = name
  · rw [if_pos same, List.lookup_cons, beq_iff_eq.mpr same.symm]
  · rw [if_neg same, List.lookup_cons, beq_eq_false_iff_ne.mpr (Ne.symm same)]

theorem lookup_eq_head? (members : List (String × Json)) (name : String) :
    members.lookup name = (valuesOf members name).head? := by
  induction members with
  | nil => rfl
  | cons m members ih =>
    rw [lookup_cons_eq, ih, valuesOf, valuesOf, List.filter_cons]
    by_cases same : m.1 = name <;> simp [same]

theorem count_names (members : List (String × Json)) (name : String) :
    (members.map Prod.fst).count name = (valuesOf members name).length := by
  rw [List.count, List.countP_map, List.countP_eq_length_filter, valuesOf, List.length_map]
  rfl

namespace Record

def among (room : Nat) (names : List String) (members : List (String × Json)) : Record :=
  ⟨room, members.filter fun m => names.contains m.1⟩

theorem nodup_among (room : Nat)
    (single : ∀ name ∈ names, (valuesOf members name).length ≤ 1) :
    ((among room names members).fields.map Prod.fst).Nodup := by
  rw [List.nodup_iff_count_le_one]
  intro name
  by_cases known : name ∈ names
  · have fewer : ((among room names members).fields.map Prod.fst).Sublist (members.map Prod.fst) :=
      List.filter_sublist.map Prod.fst
    have count := fewer.count_le name
    rw [count_names members] at count
    exact Nat.le_trans count (single name known)
  · rw [List.count_eq_zero.mpr]
    · exact Nat.zero_le 1
    · intro mem
      obtain ⟨m, hm, rfl⟩ := List.mem_map.mp mem
      exact known (List.contains_iff_mem.mp (List.mem_filter.mp hm).2)

theorem readPartial_object (single : ∀ name ∈ names, (valuesOf members name).length ≤ 1) :
    readPartial names (room + 1) (.object members) = some (among room names members) := by
  have opened : ofMembers names members = some (among room names members).fields :=
    if_pos (nodup_among room single)
  rw [readPartial, opened]
  rfl

theorem lookup_among (known : name ∈ names) :
    (among room names members).fields.lookup name = members.lookup name := by
  induction members with
  | nil => rfl
  | cons m members ih =>
    rw [lookup_cons_eq, ← ih]
    simp only [among, List.filter_cons]
    by_cases same : m.1 = name
    · rw [if_pos (List.contains_iff_mem.mpr (same ▸ known)), lookup_cons_eq]
    · rw [if_neg same]
      split
      · rw [lookup_cons_eq, if_neg same]
      · rfl

end Record

namespace HasField

variable {read : Reader α} {a : α} {j : Json}

theorem orDefault (h : HasField members name value given) (room : Nat) (names : List String)
    (known : name ∈ names) (reads : ∀ j, value j → read room j = some a) (d : α) :
    (Record.among room names members).orDefault name d read = some (if given then a else d) := by
  rw [Record.orDefault, Record.lookup_among known, lookup_eq_head?]
  cases h with
  | given only kind => rw [only]; exact reads _ kind
  | absent none => rw [none]; rfl

theorem orDefault_leaf (h : HasField members name (· = j) given) (room : Nat)
    (names : List String) (known : name ∈ names) (stands : StandsFor read j a)
    (leaf : j.depth = 0) (d : α) :
    (Record.among room names members).orDefault name d read = some (if given then a else d) := by
  refine h.orDefault room names known ?_ d
  rintro j' rfl
  exact stands.reads (.refl _) (leaf ▸ Nat.zero_le room)

end HasField

section

variable {φ : Type} {excerpt : (φ → Bool) → List (String × Json) → Prop} {given : φ → Bool}

/-- Fields that make a group stand in an object of its own, which may be left out if none of them is
given. -/
def HasGroup (members : List (String × Json)) (name : String)
    (excerpt : (φ → Bool) → List (String × Json) → Prop) (given : φ → Bool) : Prop :=
  ∃ present, (present = false → ∀ f, given f = false) ∧
    HasField members name (fun j => ∃ inner, j = .object inner ∧ excerpt given inner) present

theorem HasGroup.length_le (h : HasGroup members name excerpt given) :
    (valuesOf members name).length ≤ 1 := by
  obtain ⟨present, -, field⟩ := h
  exact field.length_le

theorem HasGroup.orDefault {read : Reader α} {a d : α} (h : HasGroup members name excerpt given)
    (room : Nat) (names : List String) (known : name ∈ names)
    (out : (∀ f, given f = false) → a = d)
    (reads : ∀ inner, excerpt given inner → read room (.object inner) = some a) :
    (Record.among room names members).orDefault name d read = some a := by
  obtain ⟨present, empty, field⟩ := h
  rw [field.orDefault room names known (fun j ⟨inner, hj, part⟩ => hj ▸ reads inner part) d]
  cases present with
  | true => rfl
  | false => rw [out (empty rfl)]; rfl

end

end Json

end QuestionSynthesis
