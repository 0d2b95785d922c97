import QuestionSynthesis.Proofs.Json.Reader
import QuestionSynthesis.Proofs.Property.Document

/-!
# Values in documents

The document of a value stands for this value, of whatever kind it is (`standsFor`): doubles have to
be finite, since others are written as `null`, and maps have to be maps (`Writable`). The text of
such a value is read back if and only if the value nests within the limit (`decode_toJson`).
-/

namespace QuestionSynthesis

namespace Value

open Json (Exact Plain StandsFor decode nestingLimit)

@[elab_as_elim]
theorem induct {motive : Value → Prop} (null : motive null) (bool : ∀ b, motive (bool b))
    (int : ∀ n, motive (int n)) (double : ∀ x, motive (double x))
    (string : ∀ s, motive (string s))
    (list : ∀ items, (∀ v ∈ items, motive v) → motive (list items))
    (map : ∀ entries, (∀ e ∈ entries, motive e.2) → motive (map entries)) (v : Value) : motive v :=
  @Value.rec motive (fun items => ∀ v ∈ items, motive v) (fun entries => ∀ e ∈ entries, motive e.2)
    (fun e => motive e.2) null bool int double string list map (by simp)
    (fun _ _ first rest => List.forall_mem_cons.mpr ⟨first, rest⟩) (by simp)
    (fun _ _ first rest => List.forall_mem_cons.mpr ⟨first, rest⟩) (fun _ _ value => value) v

@[simp] theorem toJsonItems_eq (items : List Value) : toJsonItems items = items.map toJson := by
  induction items with
  | nil => rfl
  | cons v items ih => rw [toJsonItems, ih, List.map_cons]

@[simp] theorem toJsonEntries_eq (entries : List (String × Value)) :
    toJsonEntries entries = entries.map fun e => (e.1, toJson e.2) := by
  induction entries with
  | nil => rfl
  | cons e entries ih => rw [toJsonEntries, ih, List.map_cons]

@[simp] theorem depthItems_le {items : List Value} {n : Nat} :
    depthItems items ≤ n ↔ ∀ v ∈ items, v.depth ≤ n := by
  induction items with
  | nil => simp [depthItems]
  | cons v items ih => rw [depthItems, Nat.max_le, ih, List.forall_mem_cons]

@[simp] theorem depthEntries_le {entries : List (String × Value)} {n : Nat} :
    depthEntries entries ≤ n ↔ ∀ e ∈ entries, e.2.depth ≤ n := by
  induction entries with
  | nil => simp [depthEntries]
  | cons e entries ih => rw [depthEntries, Nat.max_le, ih, List.forall_mem_cons]

/-- All doubles in the value are finite, and every map in it has each name once. -/
inductive Writable : Value → Prop where
  | null : Writable null
  | bool (b : Bool) : Writable (bool b)
  | int (n : Int64) : Writable (int n)
  | double {x : Binary64} (finite : x.isFinite = true) : Writable (double x)
  | string (s : String) : Writable (string s)
  | list {items : List Value} (each : ∀ v ∈ items, Writable v) : Writable (list items)
  | map {entries : Entries Value} (sorted : entries.Sorted) (each : ∀ e ∈ entries, Writable e.2) :
      Writable (map entries)

theorem toJson_double {x : Binary64} (finite : x.isFinite = true) :
    toJson (double x) = .double x := by
  rw [toJson, Json.ofDouble, if_pos finite]

theorem plain_toJson {v : Value} (h : v.Writable) : Plain v.toJson := by
  induction h with
  | int n =>
    have word : wordMax = 2 ^ 64 - 1 := by decide
    have upper := n.toInt_lt
    exact .leaf rfl ⟨n.le_toInt, by omega⟩
  | double finite =>
    rw [toJson_double finite]
    exact .leaf rfl trivial
  | list each ih =>
    rw [toJson, toJsonItems_eq]
    exact .array (List.forall_mem_map.mpr ih)
  | map sorted each ih =>
    rw [toJson, toJsonEntries_eq]
    exact .object (List.forall_mem_map.mpr ih)
  | _ => exact .leaf rfl trivial

theorem ofJson_of_shuffled {v : Value} {j : Json} (h : v.Writable) (s : Json.Shuffled v.toJson j) :
    ofJson j.collapse = v := by
  induction h generalizing j with
  | int n =>
    rw [s.eq_of_isLeaf rfl]
    simp only [toJson, Json.collapse, ofJson, ofInt,
      if_pos (And.intro n.minValue_le_toInt n.toInt_le), n.ofInt_toInt]
  | double finite =>
    rw [toJson_double finite] at s
    rw [s.eq_of_isLeaf rfl]
    rfl
  | list each ih =>
    rw [toJson, toJsonItems_eq] at s
    obtain ⟨items', rfl, alike⟩ := s.exists_items
    simp only [Json.collapse, Json.collapseItems_eq, ofJson, ofJsonItems_eq, List.map_map]
    exact congrArg list (Json.map_of_forall₂ (List.forall₂_map_left_iff.mp alike)
      fun v hv j _ related => ih v hv related)
  | @map entries sorted each ih =>
    rw [toJson, toJsonEntries_eq] at s
    obtain ⟨ordered, members, rfl, order, alike⟩ := s.exists_entries
    simp only [Json.collapse, Json.collapseMembers_eq, ofJson, ofJsonMembers_eq,
      ← Entries.ofPairs_map, List.map_map]
    -- conversion gives the entries in the order of the document, which is lost on entering them
    have entered : members.map (fun m => (m.1, ofJson m.2.collapse)) = ordered :=
      Json.map_of_forall₂ alike fun e he m _ related => by
        rw [ih e (order.mem_iff.mp he) related.2, ← related.1]
    exact congrArg map ((congrArg Entries.ofPairs entered).trans (sorted.ofPairs_perm order))
  | _ =>
    rw [s.eq_of_isLeaf rfl]
    rfl

theorem standsFor {v : Value} (h : v.Writable) : StandsFor read v.toJson v where
  reads shuffled deep := by
    have readable := Json.readable_of_plain ((plain_toJson h).shuffled shuffled) deep
    rw [read_eq, if_pos readable, ofJson_of_shuffled h shuffled]
  plain := plain_toJson h

theorem depth_toJson (v : Value) : v.toJson.depth = v.depth := by
  refine eq_of_forall_ge_iff fun n => ?_
  induction v using Value.induct generalizing n with
  | double x => cases finite : x.isFinite <;> simp [toJson, Json.ofDouble, finite, depth, Json.depth]
  | list items ih =>
    rw [toJson, toJsonItems_eq, depth]
    cases n with
    | zero => simp [Json.depth]
    | succ n =>
      rw [Json.depth_array_le, Nat.add_le_add_iff_right, depthItems_le, List.forall_mem_map]
      exact forall₂_congr fun v hv => ih v hv n
  | map entries ih =>
    rw [toJson, toJsonEntries_eq, depth]
    cases n with
    | zero => simp [Json.depth]
    | succ n =>
      rw [Json.depth_object_le, Nat.add_le_add_iff_right, depthEntries_le, List.forall_mem_map]
      exact forall₂_congr fun e he => ih e he n
  | _ => exact Iff.rfl

theorem read_toJson {v : Value} (h : v.Writable) (room : Nat) :
    read room v.toJson = if v.depth ≤ room then some v else none := by
  split
  · next fits => exact (standsFor h).reads (.refl _) ((depth_toJson v).trans_le fits)
  · next deep =>
    have refused : ¬ v.toJson.readable room = true := fun readable =>
      deep ((depth_toJson v).symm.trans_le (Json.depth_le_of_readable readable))
    rw [read, if_neg refused]

/-- Every value can be written, but the text of one that nests too deep is refused. -/
theorem decode_toJson {v : Value} (h : v.Writable) (exact : Exact v.toJson) :
    decode read v.toJson.toCompact = (if v.depth ≤ nestingLimit then some v else none) ∧
    decode read v.toJson.toPretty = (if v.depth ≤ nestingLimit then some v else none) := by
  have plain := plain_toJson h
  rw [Json.decode_toCompact plain exact, Json.decode_toPretty plain exact, read_toJson h]
  exact ⟨rfl, rfl⟩

end Value

namespace Properties

open Json (StandsFor)

structure Writable (p : Properties) : Prop where
  sorted : p.Sorted
  each : ∀ e ∈ p, Value.Writable e.2

theorem standsFor {p : Properties} (h : p.Writable) : StandsFor read (toJson p) p := by
  rw [toJson, Value.toJsonEntries_eq]
  exact Json.standsFor_entries h.sorted fun e he => Value.standsFor (h.each e he)

end Properties

end QuestionSynthesis
