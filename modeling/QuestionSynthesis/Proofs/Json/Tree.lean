import QuestionSynthesis.Json.Tree

/-!
# Trees by their lists

Functions on documents come with twins on lists of items and of members. Each twin is the function
applied throughout the list, so that proofs about documents go by one induction, with a hypothesis
for every item and every member (`Json.induct`).
-/

namespace QuestionSynthesis

namespace Json

/-- Induction over a document: an array may use what holds of its items, an object what holds of the
values of its members. -/
@[elab_as_elim]
theorem induct {motive : Json → Prop} (null : motive null) (bool : ∀ b, motive (bool b))
    (int : ∀ n, motive (int n)) (double : ∀ x, motive (double x))
    (string : ∀ s, motive (string s))
    (array : ∀ items, (∀ j ∈ items, motive j) → motive (array items))
    (object : ∀ members, (∀ m ∈ members, motive m.2) → motive (object members))
    (unreadable : motive unreadable) (j : Json) : motive j :=
  @Json.rec motive (fun items => ∀ j ∈ items, motive j) (fun members => ∀ m ∈ members, motive m.2)
    (fun m => motive m.2) null bool int double string array object unreadable (by simp)
    (fun _ _ first rest => List.forall_mem_cons.mpr ⟨first, rest⟩) (by simp)
    (fun _ _ first rest => List.forall_mem_cons.mpr ⟨first, rest⟩) (fun _ _ value => value) j

@[simp] theorem readableItems_eq (room : Nat) (items : List Json) :
    readableItems room items = items.all (readable room) := by
  induction items with
  | nil => rfl
  | cons j items ih => rw [readableItems, ih, List.all_cons]

@[simp] theorem readableMembers_eq (room : Nat) (members : List (String × Json)) :
    readableMembers room members = members.all fun m => m.2.readable room := by
  induction members with
  | nil => rfl
  | cons m members ih => rw [readableMembers, ih, List.all_cons]

@[simp] theorem collapseItems_eq (items : List Json) : collapseItems items = items.map collapse := by
  induction items with
  | nil => rfl
  | cons j items ih => rw [collapseItems, ih, List.map_cons]

@[simp] theorem collapseMembers_eq (members : List (String × Json)) :
    collapseMembers members = members.map fun m => (m.1, m.2.collapse) := by
  induction members with
  | nil => rfl
  | cons m members ih => rw [collapseMembers, ih, List.map_cons]

@[simp] theorem depthItems_le {items : List Json} {n : Nat} :
    depthItems items ≤ n ↔ ∀ j ∈ items, j.depth ≤ n := by
  induction items with
  | nil => simp [depthItems]
  | cons j items ih => rw [depthItems, Nat.max_le, ih, List.forall_mem_cons]

@[simp] theorem depthMembers_le {members : List (String × Json)} {n : Nat} :
    depthMembers members ≤ n ↔ ∀ m ∈ members, m.2.depth ≤ n := by
  induction members with
  | nil => simp [depthMembers]
  | cons m members ih => rw [depthMembers, Nat.max_le, ih, List.forall_mem_cons]

end Json

end QuestionSynthesis
