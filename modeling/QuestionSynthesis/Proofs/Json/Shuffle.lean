import Mathlib.Data.List.Perm.Basic
import QuestionSynthesis.Proofs.Json.Spelling

/-!
# The order of members

A map has no order, so its document may have its members in any order (`Shuffled`). The leaves of a
document are the same in any order of its members.
-/

namespace QuestionSynthesis

namespace Json

variable {α : Type} {j j' : Json} {items : List Json} {members : List (String × Json)}

/-- The second document is the first with the members of its objects in some order. -/
inductive Shuffled : Json → Json → Prop where
  | leaf {j : Json} (leaf : j.isLeaf = true) : Shuffled j j
  | array {items items' : List Json} (each : List.Forall₂ Shuffled items items') :
      Shuffled (array items) (array items')
  | object {members ordered members' : List (String × Json)} (order : ordered.Perm members)
      (names : ordered.map Prod.fst = members'.map Prod.fst)
      (each : List.Forall₂ Shuffled (ordered.map Prod.snd) (members'.map Prod.snd)) :
      Shuffled (object members) (object members')

namespace Shuffled

theorem eq_of_isLeaf (h : Shuffled j j') (leaf : j.isLeaf = true) : j' = j := by
  cases h with
  | leaf => rfl
  | array => cases leaf
  | object => cases leaf

theorem exists_items (h : Shuffled (.array items) j) :
    ∃ items', j = .array items' ∧ List.Forall₂ Shuffled items items' := by
  cases h with
  | leaf leaf => cases leaf
  | array each => exact ⟨_, rfl, each⟩

theorem forall₂_of_maps {members members' : List (String × Json)}
    (names : members.map Prod.fst = members'.map Prod.fst)
    (each : List.Forall₂ Shuffled (members.map Prod.snd) (members'.map Prod.snd)) :
    List.Forall₂ (fun m m' => m.1 = m'.1 ∧ Shuffled m.2 m'.2) members members' := by
  induction members generalizing members' with
  | nil =>
    cases members' with
    | nil => exact .nil
    | cons => cases names
  | cons m members ih =>
    cases members' with
    | nil => cases names
    | cons m' members' =>
      obtain ⟨name, names⟩ := List.cons.inj names
      cases each with
      | cons value each => exact .cons ⟨name, value⟩ (ih names each)

theorem exists_members (h : Shuffled (.object members) j) :
    ∃ ordered members', j = .object members' ∧ ordered.Perm members ∧
      ordered.map Prod.fst = members'.map Prod.fst ∧
      List.Forall₂ (fun m m' => m.1 = m'.1 ∧ Shuffled m.2 m'.2) ordered members' := by
  cases h with
  | leaf leaf => cases leaf
  | object order names each => exact ⟨_, _, rfl, order, names, forall₂_of_maps names each⟩

theorem exists_entries {m : List (String × α)} {toJson : α → Json}
    (h : Shuffled (.object (m.map fun e => (e.1, toJson e.2))) j) :
    ∃ ordered members', j = .object members' ∧ ordered.Perm m ∧
      List.Forall₂ (fun e m' => e.1 = m'.1 ∧ Shuffled (toJson e.2) m'.2) ordered members' := by
  obtain ⟨ordered, members', rfl, order, -, each⟩ := h.exists_members
  obtain ⟨entries, rfl, same⟩ :=
    (congrFun₂ (List.eq_map_comp_perm fun e => (e.1, toJson e.2)) ordered m).mpr order
  exact ⟨entries, members', rfl, same, List.forall₂_map_left_iff.mp each⟩

theorem refl (j : Json) : Shuffled j j := by
  induction j using Json.induct with
  | array items ih => exact .array (List.forall₂_same.mpr ih)
  | object members ih =>
    exact .object (.refl _) rfl (List.forall₂_map_left_iff.mpr (List.forall₂_map_right_iff.mpr
      (List.forall₂_same.mpr ih)))
  | _ => exact .leaf rfl

end Shuffled

theorem exists_right_of_mem {β : Type} {R : α → β → Prop} {as : List α} {bs : List β}
    (h : List.Forall₂ R as bs) {a : α} (ha : a ∈ as) : ∃ b ∈ bs, R a b := by
  induction h with
  | nil => cases ha
  | cons first rest ih =>
    rcases List.mem_cons.mp ha with rfl | later
    · exact ⟨_, List.mem_cons_self, first⟩
    · obtain ⟨b, hb, related⟩ := ih later
      exact ⟨b, List.mem_cons_of_mem _ hb, related⟩

theorem exists_left_of_mem {β : Type} {R : α → β → Prop} {as : List α} {bs : List β}
    (h : List.Forall₂ R as bs) {b : β} (hb : b ∈ bs) : ∃ a ∈ as, R a b :=
  exists_right_of_mem (R := flip R) (List.Forall₂.flip h) hb

theorem Throughout.shuffled {p : Json → Prop} (h : Throughout p j) (s : Shuffled j j') :
    Throughout p j' := by
  induction j using Json.induct generalizing j' with
  | array items ih =>
    obtain ⟨items', rfl, each⟩ := s.exists_items
    refine .array fun j' hj' => ?_
    obtain ⟨j, hj, related⟩ := exists_left_of_mem each hj'
    exact ih j hj (h.items j hj) related
  | object members ih =>
    obtain ⟨ordered, members', rfl, order, -, each⟩ := s.exists_members
    refine .object fun m' hm' => ?_
    obtain ⟨m, hm, -, related⟩ := exists_left_of_mem each hm'
    exact ih m (order.mem_iff.mp hm) (h.members m (order.mem_iff.mp hm)) related
  | _ => exact s.eq_of_isLeaf rfl ▸ h

end Json

end QuestionSynthesis
