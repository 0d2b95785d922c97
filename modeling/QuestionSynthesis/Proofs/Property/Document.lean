import Mathlib.Data.List.Forall2
import QuestionSynthesis.Proofs.Entries
import QuestionSynthesis.Proofs.Json.Tree
import QuestionSynthesis.Property.Document

/-!
# Two ways from documents to values

The conversion of a tree and the reading by trial give the same value, the one that the document
denotes (`Denotes`), and fail for the same texts (`readings_agree`).
-/

namespace QuestionSynthesis

open Json (decode parse? parseReadable? nestingLimit Numeral)

namespace Value

@[simp] theorem ofJsonItems_eq (items : List Json) : ofJsonItems items = items.map ofJson := by
  induction items with
  | nil => rfl
  | cons j items ih => rw [ofJsonItems, ih, List.map_cons]

@[simp] theorem ofJsonMembers_eq (members : List (String × Json)) :
    ofJsonMembers members = members.map fun m => (m.1, ofJson m.2) := by
  induction members with
  | nil => rfl
  | cons m members ih => rw [ofJsonMembers, ih, List.map_cons]

theorem ofDocumentItems?_eq (items : List Json) (f : Json → Value)
    (h : ∀ j ∈ items, ofDocument? j = some (f j)) :
    ofDocumentItems? items = some (items.map f) := by
  induction items with
  | nil => rfl
  | cons j items ih =>
    obtain ⟨first, rest⟩ := List.forall_mem_cons.mp h
    simp [ofDocumentItems?, first, ih rest]

theorem ofDocumentMembers?_eq (members : List (String × Json)) (f : Json → Value)
    (h : ∀ m ∈ members, ofDocument? m.2 = some (f m.2)) :
    ofDocumentMembers? members = some (members.map fun m => (m.1, f m.2)) := by
  induction members with
  | nil => rfl
  | cons m members ih =>
    obtain ⟨first, rest⟩ := List.forall_mem_cons.mp h
    simp [ofDocumentMembers?, first, ih rest]

theorem ofDocument?_eq {j : Json} {room : Nat} (h : j.readable room = true) :
    ofDocument? j = some (ofJson j.collapse) := by
  induction j using Json.induct generalizing room with
  | null => rfl
  | bool b => rfl
  | int n =>
    simp only [ofDocument?, readLeaf, readNull, readBool, readInt, readDouble, Json.collapse,
      ofJson, ofInt]
    split <;> rfl
  | double x => rfl
  | string s => rfl
  | array items ih =>
    obtain ⟨-, inner⟩ := Bool.and_eq_true_iff.mp h
    rw [Json.readableItems_eq, List.all_eq_true] at inner
    rw [ofDocument?, ofDocumentItems?_eq items (fun j => ofJson j.collapse)
      fun j hj => ih j hj (inner j hj)]
    simp [Json.collapse, ofJson]
  | object members ih =>
    obtain ⟨-, inner⟩ := Bool.and_eq_true_iff.mp h
    rw [Json.readableMembers_eq, List.all_eq_true] at inner
    rw [ofDocument?, ofDocumentMembers?_eq members (fun j => ofJson j.collapse)
      fun m hm => ih m hm (inner m hm)]
    -- conversion keeps names, so it does not matter whether members are entered before or after
    have entered := Entries.ofPairs_map ofJson (members.map fun m => (m.1, m.2.collapse))
    rw [List.map_map] at entered
    simp only [Json.collapse, Json.collapseMembers_eq, ofJson, ofJsonMembers_eq, ← entered]
    rfl
  | unreadable => cases h

theorem read_eq (room : Nat) (j : Json) :
    read room j = if j.readable room then some (ofJson j.collapse) else none := by
  unfold read
  split
  · next h => rw [ofDocument?_eq h]
  · rfl

theorem decode_eq (text : String) :
    decode read text = (parseReadable? text.toList).map fun j => ofJson j.collapse := by
  unfold decode parseReadable?
  cases parse? text.toList with
  | none => rfl
  | some j => simp [read_eq, Option.filter]

def FitsWord (n : Int) : Prop := Int64.minValue.toInt ≤ n ∧ n ≤ Int64.maxValue.toInt

/-- The value of a document. A whole number is an integer where it fits and otherwise a double, items
keep their order, and of the members with one name the last counts. -/
inductive Denotes : Json → Value → Prop where
  | null : Denotes .null null
  | bool (b : Bool) : Denotes (.bool b) (bool b)
  | int {n : Int} (fits : FitsWord n) : Denotes (.int n) (int (.ofInt n))
  | wide {n : Int} (wide : ¬ FitsWord n) : Denotes (.int n) (double (.ofInt n))
  | double (x : Binary64) : Denotes (.double x) (double x)
  | string (s : String) : Denotes (.string s) (string s)
  | list {items : List Json} {values : List Value} (each : List.Forall₂ Denotes items values) :
      Denotes (.array items) (list values)
  | map {members : List (String × Json)} {entries : Entries Value} (sorted : entries.Sorted)
      (names : ∀ name, (∃ v, Entries.get? name entries = some v) ↔ ∃ j, (name, j) ∈ members)
      (each : ∀ name j v, Entries.IsLast members name j → Entries.get? name entries = some v →
        Denotes j v) : Denotes (.object members) (map entries)

theorem denotes_ofJson {j : Json} {room : Nat} (h : j.readable room = true) :
    Denotes j (ofJson j.collapse) := by
  induction j using Json.induct generalizing room with
  | null => exact .null
  | bool b => exact .bool b
  | int n =>
    simp only [Json.collapse, ofJson, ofInt]
    split
    · next fits => exact .int fits
    · next wide => exact .wide wide
  | double x => exact .double x
  | string s => exact .string s
  | array items ih =>
    obtain ⟨-, inner⟩ := Bool.and_eq_true_iff.mp h
    rw [Json.readableItems_eq, List.all_eq_true] at inner
    simp only [Json.collapse, Json.collapseItems_eq, ofJson, ofJsonItems_eq, List.map_map]
    exact .list (List.forall₂_map_right_iff.mpr
      (List.forall₂_same.mpr fun j hj => ih j hj (inner j hj)))
  | object members ih =>
    obtain ⟨-, inner⟩ := Bool.and_eq_true_iff.mp h
    rw [Json.readableMembers_eq, List.all_eq_true] at inner
    simp only [Json.collapse, Json.collapseMembers_eq, ofJson, ofJsonMembers_eq,
      ← Entries.ofPairs_map, List.map_map, Function.comp_def]
    have last : ∀ name v, Entries.get? name (Entries.ofPairs
        (members.map fun m => (m.1, ofJson m.2.collapse))) = some v ↔
        ∃ j, Entries.IsLast members name j ∧ ofJson j.collapse = v := fun name v => by
      rw [Entries.get?_ofPairs_iff, Entries.isLast_map (f := fun j : Json => ofJson j.collapse)]
    refine .map (Entries.ofPairs_sorted _) (fun name => ?_) fun name j v hj hv => ?_
    · simp only [last]
      constructor
      · rintro ⟨-, j, hj, -⟩
        exact ⟨j, hj.mem⟩
      · rintro ⟨j, hj⟩
        obtain ⟨i, hi⟩ := Entries.exists_isLast hj
        exact ⟨_, i, hi, rfl⟩
    · obtain ⟨i, hi, rfl⟩ := (last name v).mp hv
      obtain rfl := hi.unique hj
      exact ih (name, i) hi.mem (inner (name, i) hi.mem)
  | unreadable => cases h

theorem forall₂_unique {R : Json → Value → Prop} {items : List Json} {vs ws : List Value}
    (unique : ∀ j ∈ items, ∀ {v w}, R j v → R j w → v = w) (h : List.Forall₂ R items vs)
    (h' : List.Forall₂ R items ws) : vs = ws := by
  induction h generalizing ws with
  | nil =>
    cases h'
    rfl
  | cons first rest ih =>
    obtain ⟨here, later⟩ := List.forall_mem_cons.mp unique
    cases h' with
    | cons first' rest' => rw [here first first', ih later rest']

theorem Denotes.unique {j : Json} {v w : Value} (h : Denotes j v) (h' : Denotes j w) : v = w := by
  induction j using Json.induct generalizing v w with
  | int n =>
    cases h with
    | int fits =>
      cases h' with
      | int => rfl
      | wide wide => exact absurd fits wide
    | wide wide =>
      cases h' with
      | int fits => exact absurd fits wide
      | wide => rfl
  | array items ih =>
    cases h with
    | list each =>
      cases h' with
      | list each' => rw [forall₂_unique ih each each']
  | object members ih =>
    cases h with
    | map sorted names each =>
      cases h' with
      | map sorted' names' each' =>
        -- both maps have the names of the members, and under each what its last member denotes
        refine congrArg Value.map (sorted.ext sorted' fun name => ?_)
        by_cases known : ∃ j, (name, j) ∈ members
        · obtain ⟨v, hv⟩ := (names name).mpr known
          obtain ⟨w, hw⟩ := (names' name).mpr known
          obtain ⟨j, hj⟩ := Entries.exists_isLast known.choose_spec
          rw [hv, hw, ih (name, j) hj.mem (each name j v hj hv) (each' name j w hj hw)]
        · have unknown : ∀ {entries : Entries Value}, (¬ ∃ v, Entries.get? name entries = some v) →
              Entries.get? name entries = none := fun h =>
            Option.eq_none_iff_forall_ne_some.mpr fun v hv => h ⟨v, hv⟩
          rw [unknown ((names name).not.mpr known), unknown ((names' name).not.mpr known)]
  | unreadable => cases h
  | _ =>
    cases h
    cases h'
    rfl

end Value

namespace Json.Numeral

def integer (n : Numeral) : Int :=
  if n.negative then -(Decimal.ofDigits n.whole : Int) else Decimal.ofDigits n.whole

/-- The literal spells a whole number in the range of signed words, other than minus zero. -/
structure SpellsWord (n : Numeral) : Prop where
  whole : n.real = false
  signed : n.negative = true → n.integer ≠ 0
  fits : Value.FitsWord n.integer

theorem value_cases (n : Numeral) :
    n.value = .int n.integer ∧ n.real = false ∧ (n.negative = true → n.integer ≠ 0) ∨
    (∃ x, n.value = .double x) ∧ ¬ n.SpellsWord ∨ n.value = .unreadable ∧ ¬ n.SpellsWord := by
  have range : Int64.minValue.toInt = -2 ^ 63 ∧ Int64.maxValue.toInt = 2 ^ 63 - 1 := by decide
  have word : wordMax = 2 ^ 64 - 1 := by decide
  generalize reads : n.value = j
  unfold value at reads
  simp only at reads
  split at reads
  · next h =>
    simp only [Bool.and_eq_true, Bool.not_eq_true', decide_eq_true_eq] at h
    obtain ⟨⟨whole, positive⟩, -⟩ := h
    exact .inl (by simp [← reads, integer, whole, positive])
  split at reads
  · next h =>
    simp only [Bool.and_eq_true, Bool.not_eq_true', decide_eq_true_eq] at h
    obtain ⟨⟨⟨whole, negative⟩, nonzero⟩, -⟩ := h
    exact .inl (by simp [← reads, integer, whole, negative]; omega)
  next positive negative =>
  have spells : ¬ n.SpellsWord := fun ⟨whole, signed, lower, upper⟩ => by
    cases sign : n.negative <;> simp [integer, whole, sign] at positive negative signed lower upper <;>
      omega
  split at reads
  · exact .inr (.inl ⟨⟨_, reads.symm⟩, spells⟩)
  · exact .inr (.inr ⟨reads.symm, spells⟩)

end Json.Numeral

namespace Value

theorem denotes_word {n : Numeral} (spells : n.SpellsWord) :
    ∃ i, Denotes n.value (int i) ∧ i.toInt = n.integer := by
  have range : Int64.minValue.toInt = -2 ^ 63 ∧ Int64.maxValue.toInt = 2 ^ 63 - 1 := by decide
  have ⟨lower, upper⟩ := spells.fits
  rcases n.value_cases with ⟨value, -, -⟩ | ⟨-, wide⟩ | ⟨-, wide⟩
  · exact ⟨.ofInt n.integer, value ▸ .int spells.fits, Int64.toInt_ofInt_of_le (by omega) (by omega)⟩
  · exact absurd spells wide
  · exact absurd spells wide

theorem denotes_double {n : Numeral} {v : Value} (wide : ¬ n.SpellsWord) (h : Denotes n.value v) :
    ∃ x, v = double x := by
  rcases n.value_cases with ⟨value, whole, signed⟩ | ⟨⟨x, value⟩, -⟩ | ⟨value, -⟩ <;> rw [value] at h
  · cases h with
    | int fits => exact absurd ⟨whole, signed, fits⟩ wide
    | wide => exact ⟨_, rfl⟩
  · cases h
    exact ⟨x, rfl⟩
  · cases h

/-- The conversion of the tree of a text and the reading of the text by trial succeed for the same
texts, with the same value. It is the one that the document denotes, in which every number is an
integer or a double according to the spelling of its literal. -/
theorem readings_agree (text : String) :
    (decode read text = (parseReadable? text.toList).map fun j => ofJson j.collapse) ∧
    (∀ v, decode read text = some v ↔ ∃ j, parseReadable? text.toList = some j ∧ Denotes j v) ∧
    ∀ n : Numeral,
      (n.SpellsWord → ∃ i, Denotes n.value (int i) ∧ i.toInt = n.integer) ∧
      (¬ n.SpellsWord → ∀ v, Denotes n.value v → ∃ x, v = double x) := by
  refine ⟨decode_eq text, fun v => ?_, fun _ => ⟨denotes_word, fun h _ => denotes_double h⟩⟩
  rw [decode_eq, Option.map_eq_some_iff]
  refine exists_congr fun j => and_congr_right fun parsed => ?_
  have readable : j.readable nestingLimit = true := (Option.filter_eq_some_iff.mp parsed).2
  exact ⟨fun h => h ▸ denotes_ofJson readable, (denotes_ofJson readable).unique⟩

end Value

end QuestionSynthesis
