import QuestionSynthesis.Proofs.Corpus.Reads

/-!
# The ranking of similar nodes

Scores are compared by a total preorder, so sorting the links of a node keeps those that rank alike
in order. The node that comes first is where the earliest of its best links leads
(`similar_of_firstRanked`, `firstRanked_of_similar`).
-/

namespace QuestionSynthesis

namespace Graph

theorem rankLe_trans (p q r : Option Binary64) (h : rankLe p q = true) (h' : rankLe q r = true) :
    rankLe p r = true := by
  cases p with
  | none =>
    cases q with
    | none => exact h'
    | some y => cases h
  | some x =>
    cases r with
    | none => rfl
    | some z =>
      cases q with
      | none => cases h'
      | some y =>
        simp only [rankLe, decide_eq_true_eq] at h h' ⊢
        exact Int.le_trans h' h

theorem rankLe_total (p q : Option Binary64) : (rankLe p q || rankLe q p) = true := by
  cases p with
  | none => cases q <;> rfl
  | some x =>
    cases q with
    | none => rfl
    | some y =>
      simp only [rankLe, Bool.or_eq_true, decide_eq_true_eq]
      exact Int.le_total _ _

end Graph

namespace Relationship

def rankLe (r r' : Relationship) : Bool := Graph.rankLe r.score? r'.score?

theorem rankLe_trans (r s t : Relationship) (h : r.rankLe s = true) (h' : s.rankLe t = true) :
    r.rankLe t = true :=
  Graph.rankLe_trans _ _ _ h h'

theorem rankLe_total (r s : Relationship) : (r.rankLe s || s.rankLe r) = true :=
  Graph.rankLe_total _ _

/-- The earliest of the links that rank best: those before it rank lower, those after it no
higher. -/
def FirstRanked (links : List Relationship) (r : Relationship) : Prop :=
  ∃ before after, links = before ++ r :: after ∧ (∀ s ∈ before, s.rankLe r = false) ∧
    ∀ s ∈ after, r.rankLe s = true

variable {links : List Relationship} {r s : Relationship}

theorem FirstRanked.mem (h : FirstRanked links r) : r ∈ links := by
  obtain ⟨before, after, rfl, -, -⟩ := h
  simp

theorem FirstRanked.unique (h : FirstRanked links r) (h' : FirstRanked links s) : r = s := by
  obtain ⟨before, after, rfl, below, above⟩ := h
  obtain ⟨before', after', hsplit, below', above'⟩ := h'
  -- of two different places, the earlier link ranks both lower and no lower
  rcases List.append_eq_append_iff.mp hsplit with ⟨mid, rfl, hmid⟩ | ⟨mid, rfl, hmid⟩
  · cases mid with
    | nil => exact (List.cons.inj hmid).1
    | cons m mid =>
      obtain ⟨rfl, rfl⟩ := List.cons.inj hmid
      have hlower := below' r (by simp)
      rw [above s (by simp)] at hlower
      cases hlower
  · cases mid with
    | nil => exact (List.cons.inj hmid).1.symm
    | cons m mid =>
      obtain ⟨rfl, rfl⟩ := List.cons.inj hmid
      have hlower := below s (by simp)
      rw [above' r (by simp)] at hlower
      cases hlower

def ranked (links : List Relationship) : List Relationship := links.mergeSort rankLe

theorem firstRanked_of_ranked {more : List Relationship} (h : ranked links = r :: more) :
    FirstRanked links r := by
  induction links generalizing r more with
  | nil =>
    rw [ranked, List.mergeSort_nil] at h
    cases h
  | cons a links ih =>
    -- the earliest link goes in front of the first one that it ranks no lower than
    obtain ⟨left, right, hsorted, hrest, lower⟩ :=
      List.mergeSort_cons rankLe_trans rankLe_total a links
    have hcons : left ++ a :: right = r :: more := hsorted.symm.trans h
    cases left with
    | nil =>
      obtain ⟨rfl, rfl⟩ := List.cons.inj hcons
      have hpairwise := List.pairwise_mergeSort rankLe_trans rankLe_total (a :: links)
      rw [hsorted, List.nil_append, List.pairwise_cons] at hpairwise
      refine ⟨[], links, rfl, by simp, fun s hs => hpairwise.1 s ?_⟩
      rw [← List.nil_append right, ← hrest]
      exact List.mem_mergeSort.mpr hs
    | cons b left =>
      obtain ⟨rfl, -⟩ := List.cons.inj hcons
      obtain ⟨before, after, rfl, below, above⟩ := ih hrest
      refine ⟨a :: before, after, rfl, ?_, above⟩
      rw [List.forall_mem_cons]
      exact ⟨by simpa using lower b (List.mem_cons_self ..), below⟩

theorem firstRanked_iff : FirstRanked links r ↔ ∃ more, ranked links = r :: more := by
  constructor
  · intro h
    cases hranked : ranked links with
    | nil =>
      have hmem : r ∈ ranked links := List.mem_mergeSort.mpr h.mem
      rw [hranked] at hmem
      cases hmem
    | cons s more => exact ⟨more, by rw [h.unique (firstRanked_of_ranked hranked)]⟩
  · rintro ⟨more, h⟩
    exact firstRanked_of_ranked h

def linksOf (edges : List Relationship) (x : NodeId) : List Relationship :=
  edges.filter fun r => r.src = x ∧ r.label = similarLabel

end Relationship

namespace Assembly

open Relationship (FirstRanked ranked linksOf firstRanked_iff)

variable {a : Assembly} {first : Nat} {ops : List Operation} {x : NodeId} {r : Relationship}

theorem Records.links_eq (h : a.Records first ops) (x : NodeId) :
    (a.build.edgesFrom x).filter (·.hasLabel similarLabel) = linksOf (accepted first ops) x := by
  rw [h.edgesFrom_eq, List.filter_filter]
  apply List.filter_congr
  intro r _
  simp [Relationship.hasLabel, and_comm, Bool.beq_eq_decide_eq]

theorem Records.similar_eq (h : a.Records first ops) (known : ∃ n ∈ added first ops, n.id = x) :
    a.build.similar x = .ok ((ranked (linksOf (accepted first ops) x)).filterMap fun r =>
      a.build.node? r.dst) := by
  have hsort : ((linksOf (accepted first ops) x).map fun r => (r.score?, r.dst)).mergeSort
      (fun p q => Graph.rankLe p.1 q.1) =
      (ranked (linksOf (accepted first ops) x)).map fun r => (r.score?, r.dst) :=
    (List.map_mergeSort (r := Relationship.rankLe) (f := fun r => (r.score?, r.dst))
      fun _ _ _ _ => rfl).symm
  rw [Graph.similar, Graph.require_bind_of_known ((h.node?_isSome x).mpr known)]
  simp only [h.links_eq, hsort, List.filterMap_map]
  rfl

theorem Records.dst_of_link (h : a.Records first ops) (hr : r ∈ linksOf (accepted first ops) x) :
    r.src = x ∧ r.label = similarLabel ∧ (∃ n ∈ added first ops, n.id = x) ∧
      ∃ other, a.build.node? r.dst = some other ∧ other.id = r.dst := by
  obtain ⟨hmem, hlink⟩ := List.mem_filter.mp hr
  obtain ⟨rfl, hlabel⟩ := of_decide_eq_true hlink
  rw [← h.relationships, Array.mem_toList_iff] at hmem
  obtain ⟨hsrc, hdst⟩ := (Graph.build_complete h.consistent).ends r hmem
  obtain ⟨other, hother⟩ := Option.isSome_iff_exists.mp hdst
  exact ⟨rfl, hlabel, (h.node?_isSome r.src).mp hsrc, other, hother,
    ((h.nodes r.dst other).mp hother).2⟩

theorem Records.similar_of_firstRanked (h : a.Records first ops)
    (best : FirstRanked (linksOf (accepted first ops) x) r) :
    ∃ other more, a.build.similar x = .ok (other :: more) ∧ other.id = r.dst := by
  obtain ⟨-, -, known, other, hother, hid⟩ := h.dst_of_link best.mem
  obtain ⟨more, hranked⟩ := firstRanked_iff.mp best
  rw [h.similar_eq known, hranked, List.filterMap_cons]
  simp only [hother]
  exact ⟨other, _, rfl, hid⟩

theorem Records.firstRanked_of_similar (h : a.Records first ops) {other : Node} {more : List Node}
    (similar : a.build.similar x = .ok (other :: more)) :
    ∃ r, FirstRanked (linksOf (accepted first ops) x) r ∧ other.id = r.dst := by
  have known : ∃ n ∈ added first ops, n.id = x := by
    rw [← h.node?_isSome, ← Bool.not_eq_false]
    intro unknown
    have refused : a.build.similar x = .error (.unknownNode x) :=
      (Graph.require_bind_error_iff _).mpr ⟨rfl, unknown⟩
    cases similar.symm.trans refused
  have hsimilar := similar
  rw [h.similar_eq known] at hsimilar
  cases hranked : ranked (linksOf (accepted first ops) x) with
  | nil =>
    rw [hranked] at hsimilar
    cases hsimilar
  | cons r rest =>
    have best := firstRanked_iff.mpr ⟨rest, hranked⟩
    obtain ⟨other', more', hsimilar', hid⟩ := h.similar_of_firstRanked best
    cases similar.symm.trans hsimilar'
    exact ⟨r, best, hid⟩

end Assembly

end QuestionSynthesis
