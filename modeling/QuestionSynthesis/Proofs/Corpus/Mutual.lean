import QuestionSynthesis.Proofs.Corpus.Linking
import QuestionSynthesis.Proofs.Corpus.StableRanking

/-!
# Similarity that is mutual

Similar chunks are read from the edges that leave a chunk, but a similarity is linked both ways with
one score. Where `SIMILAR` edges come from nowhere else (`Mutual`), turning all of them around gives
the same edges in another order (`turned_perm`). So of two chunks each is similar to the other
equally often and with the same scores (`similarity_mutual`).
-/

namespace QuestionSynthesis

namespace Relationship

def linksBetween (edges : List Relationship) (x y : NodeId) : List Relationship :=
  edges.filter fun r => r.src = x ∧ r.dst = y ∧ r.label = similarLabel

def rated (r : Relationship) : NodeId × NodeId × Option Binary64 := (r.src, r.dst, r.score?)

def ratedLinks (edges : List Relationship) : List (NodeId × NodeId × Option Binary64) :=
  (edges.filter fun r => r.label = similarLabel).map rated

variable {edges : List Relationship} {x y : NodeId}

theorem ratedLinks_append (edges more : List Relationship) :
    ratedLinks (edges ++ more) = ratedLinks edges ++ ratedLinks more := by
  simp [ratedLinks]

theorem scores_eq (edges : List Relationship) (x y : NodeId) :
    (linksBetween edges x y).map score? =
      ((ratedLinks edges).filter fun l => l.1 = x ∧ l.2.1 = y).map fun l => l.2.2 := by
  rw [ratedLinks, List.filter_map, List.filter_filter, List.map_map, linksBetween]
  simp only [Function.comp_def, rated, Bool.decide_and, Bool.and_assoc]
  rfl

theorem mem_linksOf_iff : (∃ r, r ∈ linksOf edges x) ↔ ∃ l ∈ ratedLinks edges, l.1 = x := by
  constructor
  · rintro ⟨r, hr⟩
    obtain ⟨hmem, hlink⟩ := List.mem_filter.mp hr
    obtain ⟨hsrc, hlabel⟩ := of_decide_eq_true hlink
    exact ⟨r.rated, List.mem_map_of_mem (List.mem_filter.mpr ⟨hmem, decide_eq_true hlabel⟩), hsrc⟩
  · rintro ⟨l, hl, hsrc⟩
    obtain ⟨r, hr, rfl⟩ := List.mem_map.mp hl
    obtain ⟨hmem, hlabel⟩ := List.mem_filter.mp hr
    exact ⟨r, List.mem_filter.mpr ⟨hmem, decide_eq_true ⟨hsrc, of_decide_eq_true hlabel⟩⟩⟩

end Relationship

namespace Assembly

open Relationship (linksOf linksBetween ranked rated ratedLinks)

variable {a : Assembly} {first : Nat} {ops : List Operation} {x y : NodeId}

def additions (a : Assembly) (op : Operation) : List Relationship :=
  (a.perform op).2.relationships.toList.drop a.relationships.size

theorem relationships_perform (a : Assembly) (op : Operation) :
    (a.perform op).2.relationships.toList = a.relationships.toList ++ a.additions op := by
  obtain ⟨n, hn⟩ | ⟨more, hmore, -⟩ := a.perform_cases op
  · rw [additions, hn]
    simp [addNode]
  · rw [additions, hmore, relating_relationships, ← Array.length_toList, List.drop_left]

structure Similarity where
  one : NodeId
  other : NodeId
  score : Binary64

def Similarity.bothWays (s : Similarity) : List (NodeId × NodeId × Option Binary64) :=
  [(s.one, s.other, some s.score), (s.other, s.one, some s.score)]

theorem exists_bothWays_iff {pairs : List Similarity} :
    (∃ l ∈ pairs.flatMap Similarity.bothWays, l.1 = x) ↔ ∃ s ∈ pairs, s.one = x ∨ s.other = x := by
  constructor
  · rintro ⟨l, hl, rfl⟩
    obtain ⟨s, hs, hl⟩ := List.mem_flatMap.mp hl
    rcases List.mem_pair.mp hl with rfl | rfl
    · exact ⟨s, hs, .inl rfl⟩
    · exact ⟨s, hs, .inr rfl⟩
  · rintro ⟨s, hs, rfl | rfl⟩
    · exact ⟨_, List.mem_flatMap.mpr ⟨s, hs, List.mem_pair.mpr (.inl rfl)⟩, rfl⟩
    · exact ⟨_, List.mem_flatMap.mpr ⟨s, hs, List.mem_pair.mpr (.inr rfl)⟩, rfl⟩

/-- Operations on an empty assembly whose `SIMILAR` edges all come from similarities that were
linked with success. -/
inductive Mutual (first : Nat) : List Operation → List Similarity → Prop where
  | nil : Mutual first [] []
  | link {ops pairs x y score} (earlier : Mutual first ops pairs)
      (linked : (((empty first).performAll ops).linkSimilar x y score).1 = .ok ()) :
      Mutual first (ops ++ [.linkSimilar x y score]) (pairs ++ [⟨x, y, score⟩])
  | other {ops pairs op} (earlier : Mutual first ops pairs)
      (spared : ∀ r ∈ ((empty first).performAll ops).additions op, r.label ≠ similarLabel) :
      Mutual first (ops ++ [op]) pairs

theorem ratedLinks_linkSimilar {score : Binary64} (linked : (a.linkSimilar x y score).1 = .ok ()) :
    ratedLinks (a.linkSimilar x y score).2.relationships.toList =
      ratedLinks a.relationships.toList ++ Similarity.bothWays ⟨x, y, score⟩ := by
  rw [linkSimilar_eq] at linked ⊢
  split at linked
  · next known =>
    rw [if_pos known, linking, relating_relationships, Relationship.ratedLinks_append]
    rfl
  · cases linked

theorem Mutual.ratedLinks {pairs : List Similarity} (h : Mutual first ops pairs) :
    ratedLinks ((empty first).performAll ops).relationships.toList =
      pairs.flatMap Similarity.bothWays := by
  induction h with
  | nil => rfl
  | link earlier linked ih =>
    rw [performAll_snoc, List.flatMap_append, ← ih]
    exact (ratedLinks_linkSimilar linked).trans (by simp)
  | other earlier spared ih =>
    have none : ((((empty first).performAll _).additions _).filter fun r =>
        r.label = similarLabel) = [] :=
      List.filter_eq_nil_iff.mpr fun r hr => by simpa using spared r hr
    rw [performAll_snoc, relationships_perform, Relationship.ratedLinks_append, ih,
      Relationship.ratedLinks, none, List.map_nil, List.append_nil]

def turn (l : NodeId × NodeId × Option Binary64) : NodeId × NodeId × Option Binary64 :=
  (l.2.1, l.1, l.2.2)

theorem turned_perm (pairs : List Similarity) :
    ((pairs.flatMap Similarity.bothWays).map turn).Perm (pairs.flatMap Similarity.bothWays) := by
  rw [List.map_flatMap]
  exact List.Perm.flatMap_left pairs fun s _ => .swap ..

theorem Mutual.scores_perm {pairs : List Similarity} (h : Mutual first ops pairs) (x y : NodeId) :
    ((linksBetween (accepted first ops) x y).map Relationship.score?).Perm
      ((linksBetween (accepted first ops) y x).map Relationship.score?) := by
  have records := performAll_records first ops
  have rated := h.ratedLinks
  rw [records.relationships] at rated
  rw [Relationship.scores_eq, Relationship.scores_eq, rated]
  refine (((turned_perm pairs).symm.filter _).map _).trans (.of_eq ?_)
  rw [List.filter_map, List.map_map]
  simp only [Function.comp_def, turn, and_comm]

theorem Records.countP_similar (h : a.Records first ops) (known : ∃ n ∈ added first ops, n.id = x)
    (y : NodeId) : ∃ nodes, a.build.similar x = .ok nodes ∧
      nodes.countP (fun n => n.id = y) = (linksBetween (accepted first ops) x y).length := by
  have perm := (Relationship.ranked_stablyRanked (linksOf (accepted first ops) x)).perm
  have targets := h.targets perm.subset
  refine ⟨_, h.similar_eq known, ?_⟩
  calc
    _ = (((ranked (linksOf (accepted first ops) x)).filterMap fun r =>
        a.build.node? r.dst).map Node.id).countP fun id => id = y := List.countP_map.symm
    _ = (ranked (linksOf (accepted first ops) x)).countP fun r => r.dst = y := by
      rw [targets, List.countP_map]
      rfl
    _ = (linksOf (accepted first ops) x).countP fun r => r.dst = y := perm.countP_eq _
    _ = (linksBetween (accepted first ops) x y).length := by
      rw [List.countP_eq_length_filter, linksOf, List.filter_filter, linksBetween]
      simp only [← Bool.decide_and, and_left_comm]

theorem Records.similar_cons_iff (h : a.Records first ops) :
    (∃ n more, a.build.similar x = .ok (n :: more)) ↔ ∃ r, r ∈ linksOf (accepted first ops) x := by
  constructor
  · rintro ⟨n, more, similar⟩
    obtain ⟨r, best, -⟩ := h.firstRanked_of_similar similar
    exact ⟨r, best.mem⟩
  · rintro ⟨r, hr⟩
    cases hranked : ranked (linksOf (accepted first ops) x) with
    | nil =>
      have hmem : r ∈ ranked (linksOf (accepted first ops) x) := List.mem_mergeSort.mpr hr
      rw [hranked] at hmem
      cases hmem
    | cons best rest =>
      obtain ⟨n, more, similar, -⟩ :=
        h.similar_of_firstRanked (Relationship.firstRanked_of_ranked hranked)
      exact ⟨n, more, similar⟩

/-- Where similarities are linked both ways only, each of two chunks is similar to the other equally
often and with the same scores, and the chunks that are similar to any are those that were linked. -/
theorem similarity_mutual (first : Nat) (ops : List Operation) (pairs : List Similarity)
    (mutually : Mutual first ops pairs) :
    let g := ((empty first).performAll ops).build
    let edges := accepted first ops
    (∀ x y, (∃ n ∈ added first ops, n.id = x) → (∃ n ∈ added first ops, n.id = y) →
      ∃ xs ys, g.similar x = .ok xs ∧ g.similar y = .ok ys ∧
        xs.countP (fun n => n.id = y) = ys.countP fun n => n.id = x) ∧
    (∀ x y, ((linksBetween edges x y).map Relationship.score?).Perm
      ((linksBetween edges y x).map Relationship.score?)) ∧
    ∀ x, (∃ n more, g.similar x = .ok (n :: more)) ↔ ∃ s ∈ pairs, s.one = x ∨ s.other = x := by
  intro g edges
  have h := performAll_records first ops
  refine ⟨fun x y hx hy => ?count, mutually.scores_perm, fun x => ?anchors⟩
  case count =>
    obtain ⟨xs, similar, count⟩ := h.countP_similar hx y
    obtain ⟨ys, similar', count'⟩ := h.countP_similar hy x
    refine ⟨xs, ys, similar, similar', ?_⟩
    have lengths := (mutually.scores_perm x y).length_eq
    rw [List.length_map, List.length_map] at lengths
    rw [count, count', lengths]
  case anchors =>
    rw [h.similar_cons_iff, Relationship.mem_linksOf_iff, ← h.relationships, mutually.ratedLinks,
      exists_bothWays_iff]

/-- A pair that is linked twice, once from either side, a chunk that is linked to itself, and two
refused links to a chunk that is not there. -/
def entangledOperations : List Operation :=
  [.addChunk "d" "one", .addChunk "d" "two", .addChunk "d" "three", .linkSimilar ⟨1⟩ ⟨2⟩ .zero,
    .linkSequence [⟨1⟩, ⟨2⟩, ⟨3⟩], .linkSimilar ⟨2⟩ ⟨1⟩ (.ofNat 1), .linkSimilar ⟨2⟩ ⟨9⟩ (.ofNat 1),
    .relate ⟨3⟩ ⟨9⟩ similarLabel [], .linkSimilar ⟨1⟩ ⟨1⟩ .zero]

def entangledPairs : List Similarity :=
  [⟨⟨1⟩, ⟨2⟩, .zero⟩, ⟨⟨2⟩, ⟨1⟩, .ofNat 1⟩, ⟨⟨1⟩, ⟨1⟩, .zero⟩]

theorem entangled_mutual : Mutual 1 entangledOperations entangledPairs := by
  have chunks : Mutual 1 (entangledOperations.take 3) [] :=
    ((Mutual.nil.other (by decide +kernel)).other (by decide +kernel)).other (by decide +kernel)
  have once : Mutual 1 (entangledOperations.take 4) (entangledPairs.take 1) :=
    chunks.link (by decide +kernel)
  have twice : Mutual 1 (entangledOperations.take 6) (entangledPairs.take 2) :=
    (once.other (by decide +kernel)).link (by decide +kernel)
  have refused : Mutual 1 (entangledOperations.take 8) (entangledPairs.take 2) :=
    (twice.other (by decide +kernel)).other (by decide +kernel)
  exact refused.link (by decide +kernel)

theorem similarity_mutual_entangled :
    Mutual 1 entangledOperations entangledPairs ∧
    let g := ((empty 1).performAll entangledOperations).build
    let edges := accepted 1 entangledOperations
    (∃ xs ys, g.similar ⟨1⟩ = .ok xs ∧ g.similar ⟨2⟩ = .ok ys ∧
      xs.countP (fun n => n.id = ⟨2⟩) = ys.countP fun n => n.id = ⟨1⟩) ∧
    (linksBetween edges ⟨1⟩ ⟨2⟩).map Relationship.score? = [some .zero, some (.ofNat 1)] ∧
    ((linksBetween edges ⟨1⟩ ⟨2⟩).map Relationship.score?).Perm
      ((linksBetween edges ⟨2⟩ ⟨1⟩).map Relationship.score?) ∧
    (∃ n more, g.similar ⟨1⟩ = .ok (n :: more)) ∧ ¬ ∃ n more, g.similar ⟨3⟩ = .ok (n :: more) := by
  obtain ⟨counts, scores, anchors⟩ := similarity_mutual 1 _ _ entangled_mutual
  have one : ∃ n ∈ added 1 entangledOperations, n.id = ⟨1⟩ := ⟨_, List.mem_cons_self .., rfl⟩
  have two : ∃ n ∈ added 1 entangledOperations, n.id = ⟨2⟩ :=
    ⟨_, List.mem_cons_of_mem _ (List.mem_cons_self ..), rfl⟩
  refine ⟨entangled_mutual, counts _ _ one two, by decide +kernel, scores _ _,
    (anchors _).mpr (by decide +kernel), ?_⟩
  rw [anchors]
  decide +kernel

end Assembly

end QuestionSynthesis
