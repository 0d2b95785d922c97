import QuestionSynthesis.Proofs.Binary64.TotalOrder
import QuestionSynthesis.Proofs.Corpus.Ranking

/-!
# Similar nodes in stable order

The nodes that a node is similar to are the targets of its links, the links arranged stably by
score (`StablyRanked`). There is one such arrangement only, whatever sorting finds it, so the
ranking of similar nodes depends on nothing but the links (`similar_ranks_links`).
-/

namespace QuestionSynthesis

namespace Relationship

variable {r s : Relationship} {x : Binary64} {links order other : List Relationship}

/-- The score of a link that has a numeric one: a double, an integer, or a text that spells a
number between blanks. -/
inductive Scored (r : Relationship) : Binary64 → Prop where
  | double {x : Binary64} (score : Entries.get? scoreProperty r.properties = some (.double x)) :
      Scored r x
  | int {n : Int64} (score : Entries.get? scoreProperty r.properties = some (.int n)) :
      Scored r (.ofInt n.toInt)
  | text {s : String} {x : Binary64} (score : Entries.get? scoreProperty r.properties = some (.string s))
      (spells : Binary64.parse? (Text.trim s.toList) = some x) : Scored r x

theorem score?_eq_some_iff : r.score? = some x ↔ r.Scored x := by
  constructor
  · intro h
    obtain ⟨v, score, number⟩ := Option.bind_eq_some_iff.mp h
    cases v with
    | double y =>
      cases number
      exact .double score
    | int n =>
      cases number
      exact .int score
    | string s => exact .text score number
    | _ => cases number
  · intro h
    cases h with
    | double score => simp [score?, score, Value.number?]
    | int score => simp [score?, score, Value.number?]
    | text score spells => simpa [score?, score, Value.number?] using spells

theorem rankLe_iff : r.rankLe s = true ↔
    ((∃ y, s.Scored y) → ∃ x, r.Scored x) ∧
      ∀ x y, r.Scored x → s.Scored y → y.Precedes x := by
  simp only [← score?_eq_some_iff, ← Binary64.rank_le_iff, rankLe]
  cases r.score? <;> cases s.score? <;> simp [Graph.rankLe]

def alike (r s : Relationship) : Bool := r.rankLe s && s.rankLe r

@[simp] theorem alike_self (r : Relationship) : r.alike r = true := by
  simpa [alike] using rankLe_total r r

theorem alike_eq_false (h : r.score?.isSome ≠ s.score?.isSome) : r.alike s = false := by
  unfold alike rankLe
  cases hr : r.score? <;> cases hs : s.score? <;> simp_all [Graph.rankLe]

/-- Links arranged by score: those that have one before those that have none, higher scores first,
and links that rank alike as they were. -/
structure StablyRanked (links order : List Relationship) : Prop where
  perm : order.Perm links
  scoredFirst : order.Pairwise fun r s => (∃ y, s.Scored y) → ∃ x, r.Scored x
  descending : order.Pairwise fun r s => ∀ x y, r.Scored x → s.Scored y → y.Precedes x
  stable : ∀ r : Relationship, order.filter r.alike = links.filter r.alike

theorem StablyRanked.pairwise (h : StablyRanked links order) :
    order.Pairwise fun r s => r.rankLe s = true :=
  (h.scoredFirst.and h.descending).imp rankLe_iff.mpr

theorem StablyRanked.of_pairwise (perm : order.Perm links)
    (pairwise : order.Pairwise fun r s => r.rankLe s = true)
    (stable : ∀ r : Relationship, order.filter r.alike = links.filter r.alike) :
    StablyRanked links order where
  perm := perm
  scoredFirst := pairwise.imp fun h => (rankLe_iff.mp h).1
  descending := pairwise.imp fun h => (rankLe_iff.mp h).2
  stable := stable

theorem mem_of_filter_alike (h : order.filter r.alike = other.filter r.alike) (hr : r ∈ order) :
    r ∈ other := by
  have hmem : r ∈ order.filter r.alike := List.mem_filter.mpr ⟨hr, r.alike_self⟩
  rw [h] at hmem
  exact List.mem_of_mem_filter hmem

theorem head_eq_of_filter (h : (r :: order).Pairwise fun r s => r.rankLe s = true)
    (h' : (s :: other).Pairwise fun r s => r.rankLe s = true)
    (same : ∀ t : Relationship, (r :: order).filter t.alike = (s :: other).filter t.alike) :
    r = s := by
  rcases List.mem_cons.mp (mem_of_filter_alike (same r) (by simp)) with rfl | later
  · rfl
  rcases List.mem_cons.mp (mem_of_filter_alike (same s).symm (by simp)) with rfl | later'
  · rfl
  -- each stands before the other, so they rank alike, and both are the first of those that do
  have hrs : r.alike s = true := by
    rw [alike, List.rel_of_pairwise_cons h later', List.rel_of_pairwise_cons h' later]
    rfl
  have hfilter := same r
  rw [List.filter_cons_of_pos r.alike_self, List.filter_cons_of_pos hrs] at hfilter
  exact (List.cons.inj hfilter).1

theorem eq_of_filter_eq (h : order.Pairwise fun r s => r.rankLe s = true)
    (h' : other.Pairwise fun r s => r.rankLe s = true)
    (same : ∀ t : Relationship, order.filter t.alike = other.filter t.alike) : order = other := by
  induction order generalizing other with
  | nil =>
    cases other with
    | nil => rfl
    | cons s other => cases mem_of_filter_alike (same s).symm (by simp)
  | cons r order ih =>
    cases other with
    | nil => cases mem_of_filter_alike (same r) (by simp)
    | cons s other =>
      obtain rfl := head_eq_of_filter h h' same
      have rest := ih h.of_cons h'.of_cons fun t => by
        have hfilter := same t
        simp only [List.filter_cons] at hfilter
        split at hfilter
        · exact (List.cons.inj hfilter).2
        · exact hfilter
      rw [rest]

theorem StablyRanked.unique (h : StablyRanked links order) (h' : StablyRanked links other) :
    other = order :=
  eq_of_filter_eq h'.pairwise h.pairwise fun r => (h'.stable r).trans (h.stable r).symm

theorem ranked_stable (links : List Relationship) (r : Relationship) :
    (ranked links).filter r.alike = links.filter r.alike := by
  -- links that rank alike are in order already, so sorting keeps them as a sublist
  have sorted : (links.filter r.alike).Pairwise fun s t => s.rankLe t = true := by
    refine List.pairwise_filter.mpr (List.pairwise_of_forall fun s t hs ht => ?_)
    exact rankLe_trans s r t (Bool.and_eq_true_iff.mp hs).2 (Bool.and_eq_true_iff.mp ht).1
  have kept := (List.sublist_mergeSort rankLe_trans rankLe_total sorted List.filter_sublist).filter
    r.alike
  rw [List.filter_filter] at kept
  simp only [Bool.and_self] at kept
  exact (kept.eq_of_length ((List.mergeSort_perm links rankLe).filter _).length_eq.symm).symm

theorem ranked_stablyRanked (links : List Relationship) : StablyRanked links (ranked links) :=
  .of_pairwise (List.mergeSort_perm links rankLe)
    (List.pairwise_mergeSort rankLe_trans rankLe_total links) (ranked_stable links)

end Relationship

namespace Assembly

open Relationship (StablyRanked FirstRanked ranked linksOf)

variable {a : Assembly} {first : Nat} {ops : List Operation} {x : NodeId}

theorem Records.targets (h : a.Records first ops) {order : List Relationship}
    (links : order ⊆ linksOf (accepted first ops) x) :
    (order.filterMap fun r => a.build.node? r.dst).map Node.id = order.map Relationship.dst := by
  induction order with
  | nil => rfl
  | cons r order ih =>
    obtain ⟨hr, rest⟩ := List.cons_subset.mp links
    obtain ⟨-, -, -, target, htarget, hid⟩ := h.dst_of_link hr
    simp only [List.filterMap_cons, htarget, List.map_cons, hid, ih rest]

/-- A known node is similar to the targets of its links, which are taken in the one stable order
that their scores allow. The first of them is where the earliest of the best links leads. -/
theorem similar_ranks_links (first : Nat) (ops : List Operation) (x : NodeId)
    (known : ∃ n ∈ added first ops, n.id = x) :
    let links := (accepted first ops).filter fun r => r.src = x ∧ r.label = similarLabel
    ∃ nodes order, ((empty first).performAll ops).build.similar x = .ok nodes ∧
      (∀ n ∈ nodes, n ∈ added first ops) ∧ nodes.map Node.id = order.map Relationship.dst ∧
      StablyRanked links order ∧ (∀ other, StablyRanked links other → other = order) ∧
      (∀ r, order.head? = some r ↔ FirstRanked links r) ∧
      (∀ p q, Graph.rankLe p q = true ∨ Graph.rankLe q p = true) ∧
      ∀ p q r, Graph.rankLe p q = true → Graph.rankLe q r = true → Graph.rankLe p r = true := by
  intro links
  have h := performAll_records first ops
  have stably := Relationship.ranked_stablyRanked links
  refine ⟨_, ranked links, h.similar_eq known, ?_, h.targets stably.perm.subset, stably,
    fun other => stably.unique, fun r => ?_, fun p q => ?_, Graph.rankLe_trans⟩
  · intro n hn
    obtain ⟨r, -, hr⟩ := List.mem_filterMap.mp hn
    exact ((h.nodes r.dst n).mp hr).1
  · rw [Relationship.firstRanked_iff, List.head?_eq_some_iff]
  · exact Bool.or_eq_true_iff.mp (Graph.rankLe_total p q)

def ratedOperations : List Operation :=
  [.addChunk "d" "one", .addChunk "d" "two", .addChunk "d" "three", .addChunk "d" "four",
    .relate ⟨1⟩ ⟨3⟩ similarLabel [], .relate ⟨1⟩ ⟨2⟩ similarLabel [(scoreProperty, .string " 7 ")],
    .relate ⟨1⟩ ⟨4⟩ "NEXT" [], .relate ⟨1⟩ ⟨4⟩ similarLabel [(scoreProperty, .int 7)],
    .relate ⟨1⟩ ⟨1⟩ similarLabel [(scoreProperty, .double .zero)]]

theorem similar_ranks_links_rated :
    (∃ n ∈ added 1 ratedOperations, n.id = ⟨1⟩) ∧
      ∃ nodes, ((empty 1).performAll ratedOperations).build.similar ⟨1⟩ = .ok nodes ∧
        nodes.map Node.id = [⟨2⟩, ⟨4⟩, ⟨1⟩, ⟨3⟩] := by
  have known : ∃ n ∈ added 1 ratedOperations, n.id = ⟨1⟩ := ⟨_, List.mem_cons_self .., rfl⟩
  obtain ⟨nodes, order, similar, -, ids, -, unique, -⟩ :=
    similar_ranks_links 1 ratedOperations ⟨1⟩ known
  let unscored : Relationship := ⟨⟨1⟩, ⟨1⟩, ⟨3⟩, similarLabel, []⟩
  let text : Relationship := ⟨⟨2⟩, ⟨1⟩, ⟨2⟩, similarLabel, [(scoreProperty, .string " 7 ")]⟩
  let int : Relationship := ⟨⟨4⟩, ⟨1⟩, ⟨4⟩, similarLabel, [(scoreProperty, .int 7)]⟩
  let low : Relationship := ⟨⟨5⟩, ⟨1⟩, ⟨1⟩, similarLabel, [(scoreProperty, .double .zero)]⟩
  have arranged : StablyRanked [unscored, text, int, low] [text, int, low, unscored] := by
    refine .of_pairwise (List.perm_append_singleton unscored [text, int, low]) (by decide +kernel)
      fun r => ?_
    -- whatever ranks with the link without a score ranks with none of the others
    cases hr : r.score?.isSome with
    | false =>
      have apart : ∀ s : Relationship, s.score?.isSome = true → r.alike s = false := fun s hs =>
        Relationship.alike_eq_false (by simp [hr, hs])
      simp [List.filter_cons, apart text (by decide +kernel), apart int (by decide +kernel),
        apart low (by decide +kernel)]
    | true =>
      have apart : r.alike unscored = false :=
        Relationship.alike_eq_false (by simp [hr, show unscored.score? = none from rfl])
      simp [List.filter_cons, apart]
  refine ⟨known, nodes, similar, ?_⟩
  rw [ids, ← unique _ arranged]
  rfl

end Assembly

end QuestionSynthesis
