import QuestionSynthesis.Proofs.Corpus.Graph
import QuestionSynthesis.Proofs.Corpus.Linking

/-!
# Chunks in reading order

A graph whose `NEXT` and `PREV` edges come from chains that share no chunk leads from each chunk to
the one before it and the one after it, and from the ends of a chain nowhere (`Graph.Chained`). The
edges of a chain are added in pairs, so that a lookup never has to fall back on an edge that reaches
its chunk.
-/

namespace QuestionSynthesis

namespace Direction

variable {d : Direction} {x y : NodeId} {before after : List NodeId}

def pair (d : Direction) (x y : NodeId) : List NodeId :=
  match d with
  | prev => [y, x]
  | next => [x, y]

@[simp] theorem pair_opposite (d : Direction) (x y : NodeId) :
    d.opposite.pair y x = d.pair x y := by
  cases d <;> rfl

theorem mem_pair (d : Direction) (x y : NodeId) : x ∈ d.pair x y ∧ y ∈ d.pair x y := by
  cases d <;> simp [pair]

def beyond? (before after : List NodeId) : Direction → Option NodeId
  | prev => before.getLast?
  | next => after.head?

theorem mem_of_beyond? (h : d.beyond? before after = some y) : y ∈ before ++ x :: after := by
  cases d with
  | prev => exact List.mem_append_left _ (List.mem_of_getLast? h)
  | next => exact List.mem_append_right _ (List.mem_cons_of_mem _ (List.mem_of_head? h))

theorem pair_infix_iff (distinct : (before ++ x :: after).Nodup) :
    d.pair x y <:+: before ++ x :: after ↔ d.beyond? before after = some y := by
  -- `x` stands only once in the chain, so both ways to split the chain at it are the same
  have hx : x ∉ before ∧ x ∉ after := by
    have h := List.nodup_middle.mp distinct
    simpa using (List.nodup_cons.mp h).1
  have split : ∀ p s : List NodeId,
      before ++ x :: after = p ++ x :: s ↔ before = p ∧ x = x ∧ after = s := fun _ _ =>
    List.append_cons_inj_of_notMem hx.1 hx.2
  cases d with
  | prev =>
    simp only [beyond?, List.getLast?_eq_some_iff]
    constructor
    · rintro ⟨p, s, h⟩
      have h : before ++ x :: after = (p ++ [y]) ++ x :: s := by rw [← h]; simp [pair]
      exact ⟨p, ((split _ _).mp h).1⟩
    · rintro ⟨p, rfl⟩
      exact ⟨p, after, by simp [pair]⟩
  | next =>
    simp only [beyond?, List.head?_eq_some_iff]
    constructor
    · rintro ⟨p, s, h⟩
      have h : before ++ x :: after = p ++ x :: y :: s := by rw [← h]; simp [pair]
      exact ⟨s, ((split _ _).mp h).2.2⟩
    · rintro ⟨s, rfl⟩
      exact ⟨before, s, by simp [pair]⟩

end Direction

namespace Assembly

variable {a b : Assembly} {chains : List (List NodeId)} {x y : NodeId} {d : Direction}

theorem mem_chainSteps {chunks : List NodeId} :
    (x, d.label, y) ∈ chainSteps chunks ↔ d.pair x y <:+: chunks := by
  induction chunks with
  | nil =>
    cases d <;> simp [chainSteps, Direction.pair]
  | cons u r ih =>
    cases r with
    | nil =>
      rw [List.infix_cons_iff]
      cases d <;> simp [chainSteps, Direction.pair, List.cons_prefix_cons]
    | cons v r =>
      rw [chainSteps, List.infix_cons_iff, List.mem_cons, List.mem_cons, ih]
      cases d with
      | prev =>
        simp [Direction.label, Direction.pair, List.cons_prefix_cons, and_comm]
      | next =>
        simp [Direction.label, Direction.pair, List.cons_prefix_cons]

def steps (a : Assembly) : List (NodeId × String × NodeId) :=
  a.relationships.toList.map Relationship.step

theorem linkSequence_ok {chunks : List NodeId} (known : ∀ id ∈ chunks, a.has id = true) :
    (a.linkSequence chunks).1 = .ok () :=
  congrArg Prod.fst (linkSequence_of_known known)

theorem linkSequence_steps {chunks : List NodeId} (known : ∀ id ∈ chunks, a.has id = true) :
    (a.linkSequence chunks).2.steps = a.steps ++ chainSteps chunks := by
  obtain ⟨more, ⟨hadded, -⟩, hsteps⟩ := a.linkSequence_extends chunks
  rw [← hsteps (linkSequence_ok known), hadded]
  simp [steps]

theorem steps_subset_perform (a : Assembly) (op : Operation) :
    a.steps ⊆ (a.perform op).2.steps := by
  obtain ⟨n, hn⟩ | ⟨more, hmore, -⟩ := a.perform_cases op
  · rw [hn]
    exact List.Subset.refl _
  · rw [hmore]
    simp [steps]

def Leaves (a : Assembly) (op : Operation) : Prop :=
  ∀ r ∈ (a.perform op).2.relationships, r ∉ a.relationships → ∀ d : Direction, r.label ≠ d.label

theorem Leaves.mem_steps_iff {op : Operation} (h : a.Leaves op) :
    (x, d.label, y) ∈ (a.perform op).2.steps ↔ (x, d.label, y) ∈ a.steps := by
  constructor
  · intro hmem
    obtain ⟨r, hr, hstep⟩ := List.mem_map.mp hmem
    by_cases hold : r ∈ a.relationships
    · exact List.mem_map.mpr ⟨r, Array.mem_toList_iff.mpr hold, hstep⟩
    · have hlabel : r.label = d.label := congrArg (·.2.1) hstep
      exact absurd hlabel (h r (Array.mem_toList_iff.mp hr) hold d)
  · intro hmem
    exact a.steps_subset_perform op hmem

theorem leaves_of_nodes {op : Operation} {n : Node} (h : (a.perform op).2 = (a.addNode n).2) :
    a.Leaves op := by
  intro r hr hnew
  rw [h] at hr
  exact absurd hr hnew

theorem leaves_of_labels {op : Operation} {more : List Relationship}
    (h : a.Extends (a.perform op).2 more)
    (labels : ∀ r ∈ more, ∀ d : Direction, r.label ≠ d.label) : a.Leaves op := by
  intro r hr hnew
  rw [h.1, ← Array.mem_toList_iff, relating_relationships, List.mem_append,
    Array.mem_toList_iff] at hr
  exact labels r (hr.resolve_left hnew)

theorem leaves_addChunk (a : Assembly) (docId content : String) :
    a.Leaves (.addChunk docId content) :=
  leaves_of_nodes (n := { id := ⟨0⟩, docId, content }) rfl

theorem leaves_linkSimilar (a : Assembly) (x y : NodeId) (score : Binary64) :
    a.Leaves (.linkSimilar x y score) := by
  obtain ⟨more, h, labels⟩ := a.linkSimilar_extends x y score
  refine leaves_of_labels h fun r hr d => ?_
  rw [labels r hr]
  cases d <;> decide

theorem leaves_relate (a : Assembly) (x y : NodeId) {label : String} (properties : Properties)
    (other : ∀ d : Direction, label ≠ d.label) : a.Leaves (.relate x y label properties) := by
  obtain ⟨more, h, labels⟩ := a.relate_extends x y label properties
  refine leaves_of_labels h fun r hr d => ?_
  rw [labels r hr]
  exact other d

/-- Operations on an empty assembly whose edges of reading order come from chains of known,
distinct chunks, none of them on two chains. Linking such a chain succeeds (`linkSequence_ok`). -/
inductive Sequenced (first : Nat) : List Operation → List (List NodeId) → Prop where
  | nil : Sequenced first [] []
  | link {ops chains chunks} (earlier : Sequenced first ops chains)
      (known : ∀ id ∈ chunks, ((empty first).performAll ops).has id = true)
      (distinct : chunks.Nodup) (apart : ∀ c ∈ chains, c.Disjoint chunks) :
      Sequenced first (ops ++ [.linkSequence chunks]) (chunks :: chains)
  | other {ops chains op} (earlier : Sequenced first ops chains)
      (leaves : ((empty first).performAll ops).Leaves op) :
      Sequenced first (ops ++ [op]) chains

structure Ordered (a : Assembly) (chains : List (List NodeId)) : Prop where
  known : ∀ c ∈ chains, ∀ id ∈ c, a.has id = true
  distinct : ∀ c ∈ chains, c.Nodup
  apart : ∀ c ∈ chains, ∀ c' ∈ chains, ∀ id ∈ c, id ∈ c' → c = c'
  steps_iff : ∀ (d : Direction) (x y : NodeId),
    (x, d.label, y) ∈ a.steps ↔ ∃ c ∈ chains, d.pair x y <:+: c

theorem empty_ordered (first : Nat) : (empty first).Ordered [] := by
  constructor <;> simp [steps, empty]

theorem Ordered.link (h : a.Ordered chains) {chunks : List NodeId}
    (known : ∀ id ∈ chunks, a.has id = true) (distinct : chunks.Nodup)
    (apart : ∀ c ∈ chains, c.Disjoint chunks) :
    (a.linkSequence chunks).2.Ordered (chunks :: chains) := by
  obtain ⟨more, ⟨hadded, -⟩, -⟩ := a.linkSequence_extends chunks
  constructor
  case known =>
    rw [hadded]
    exact List.forall_mem_cons.mpr ⟨known, h.known⟩
  case distinct => exact List.forall_mem_cons.mpr ⟨distinct, h.distinct⟩
  case apart =>
    intro c hc c' hc' id hid hid'
    rcases List.mem_cons.mp hc with rfl | old <;> rcases List.mem_cons.mp hc' with rfl | old'
    · rfl
    · exact (apart c' old' hid' hid).elim
    · exact (apart c old hid hid').elim
    · exact h.apart c old c' old' id hid hid'
  case steps_iff =>
    intro d x y
    rw [linkSequence_steps known, List.mem_append, h.steps_iff, mem_chainSteps]
    simp [or_comm]

theorem Ordered.other (h : a.Ordered chains) {op : Operation} (leaves : a.Leaves op) :
    (a.perform op).2.Ordered chains where
  known c hc id hid := has_perform (h.known c hc id hid) op
  distinct := h.distinct
  apart := h.apart
  steps_iff d x y := leaves.mem_steps_iff.trans (h.steps_iff d x y)

theorem Sequenced.ordered {first : Nat} {ops : List Operation} (h : Sequenced first ops chains) :
    ((empty first).performAll ops).Ordered chains := by
  induction h with
  | nil => exact empty_ordered first
  | link earlier known distinct apart ih =>
    rw [performAll_snoc]
    exact ih.link known distinct apart
  | other earlier leaves ih =>
    rw [performAll_snoc]
    exact ih.other leaves

end Assembly

namespace Graph

variable {a : Assembly} {chains : List (List NodeId)} {before after : List NodeId} {x y : NodeId}
  {d : Direction}

theorem step_of_find? {p : Relationship → Bool} {label : String} {r : Relationship}
    (h : (a.relationships.toList.filter p).find? (·.hasLabel label) = some r) :
    r.step ∈ a.steps ∧ p r = true ∧ r.label = label := by
  obtain ⟨hr, hp⟩ := List.mem_filter.mp (List.mem_of_find?_eq_some h)
  have hlabel := List.find?_some h
  exact ⟨List.mem_map_of_mem hr, hp, by simpa [Relationship.hasLabel] using hlabel⟩

theorem step_of_neighbour? (h : a.build.neighbour? x d = some y) :
    (x, d.label, y) ∈ a.steps ∨ (y, d.opposite.label, x) ∈ a.steps := by
  simp only [neighbour?, edgesFrom_build, edgesTo_build] at h
  split at h
  · next r hr =>
    obtain ⟨hstep, hsrc, hlabel⟩ := step_of_find? hr
    cases h
    left
    simpa [Relationship.step, hlabel, of_decide_eq_true hsrc] using hstep
  · obtain ⟨r, hr, rfl⟩ := Option.map_eq_some_iff.mp h
    obtain ⟨hstep, hdst, hlabel⟩ := step_of_find? hr
    right
    simpa [Relationship.step, hlabel, of_decide_eq_true hdst] using hstep

theorem exists_neighbour? (h : (x, d.label, y) ∈ a.steps) :
    ∃ z, a.build.neighbour? x d = some z := by
  obtain ⟨r, hr, hstep⟩ := List.mem_map.mp h
  have hfound : ((a.build.edgesFrom x).find? (·.hasLabel d.label)).isSome = true := by
    rw [edgesFrom_build, List.find?_isSome]
    simp only [Relationship.step, Prod.mk.injEq] at hstep
    refine ⟨r, List.mem_filter.mpr ⟨hr, ?_⟩, ?_⟩
    · simp [hstep.1]
    · simp [Relationship.hasLabel, hstep.2.1]
  obtain ⟨r', hr'⟩ := Option.isSome_iff_exists.mp hfound
  exact ⟨r'.dst, by simp [neighbour?, hr']⟩

theorem pair_of_neighbour? (h : a.Ordered chains) (found : a.build.neighbour? x d = some y) :
    ∃ c ∈ chains, d.pair x y <:+: c := by
  rcases step_of_neighbour? found with hstep | hstep
  · exact (h.steps_iff d x y).mp hstep
  · have hpair := (h.steps_iff d.opposite y x).mp hstep
    simpa using hpair

theorem neighbour?_of_chain (h : a.Ordered chains) (on : before ++ x :: after ∈ chains)
    (d : Direction) : a.build.neighbour? x d = d.beyond? before after := by
  have distinct := h.distinct _ on
  have hfound : ∀ z, a.build.neighbour? x d = some z → d.beyond? before after = some z := by
    intro z found
    obtain ⟨c, hc, hpair⟩ := pair_of_neighbour? h found
    have hx : x ∈ c := hpair.subset (d.mem_pair x z).1
    have hsame : c = before ++ x :: after := h.apart c hc _ on x hx (by simp)
    rw [hsame] at hpair
    exact (Direction.pair_infix_iff distinct).mp hpair
  -- nothing is found only where nothing is next: every chain has its edges both ways
  cases hn : a.build.neighbour? x d with
  | some z => exact (hfound z hn).symm
  | none =>
    cases hb : d.beyond? before after with
    | none => rfl
    | some y =>
      have hpair := (Direction.pair_infix_iff distinct).mpr hb
      obtain ⟨z, hz⟩ := exists_neighbour? ((h.steps_iff d x y).mpr ⟨_, on, hpair⟩)
      cases hn.symm.trans hz

/-- From each chunk of a chain a graph leads to the chunks next to it, and from nodes off all chains
to none. -/
structure Chained (g : Graph) (chains : List (List NodeId)) : Prop where
  known : ∀ c ∈ chains, ∀ id ∈ c, (g.node? id).isSome = true
  distinct : ∀ c ∈ chains, c.Nodup
  adjacent_on : ∀ {before : List NodeId} {x : NodeId} {after : List NodeId},
    before ++ x :: after ∈ chains → ∀ d, ∃ found,
      g.adjacent x d = .ok found ∧ found.map Node.id = d.beyond? before after
  adjacent_off : ∀ {x : NodeId}, (∀ c ∈ chains, x ∉ c) → ∀ d n, g.adjacent x d ≠ .ok (some n)

theorem build_chained (wf : a.WellFormed) (h : a.Ordered chains) : a.build.Chained chains := by
  have owns := build_owns wf
  constructor
  case known =>
    intro c hc id hid
    exact Option.isSome_iff_exists.mpr (exists_node? (h.known c hc id hid))
  case distinct => exact h.distinct
  case adjacent_on =>
    intro before x after on d
    obtain ⟨m, hm⟩ := exists_node? (h.known _ on x (by simp))
    refine ⟨_, adjacent_of_node hm d, ?_⟩
    rw [neighbour?_of_chain h on d]
    cases hb : d.beyond? before after with
    | none => rfl
    | some y =>
      obtain ⟨n, hn⟩ := exists_node? (h.known _ on y (Direction.mem_of_beyond? hb))
      simp [hn, owns y n hn]
  case adjacent_off =>
    intro x off d n found
    obtain ⟨y, hy, -⟩ := neighbour?_of_adjacent found
    obtain ⟨c, hc, hpair⟩ := pair_of_neighbour? h hy
    exact off c hc (hpair.subset (d.mem_pair x y).1)

end Graph

theorem Assembly.Sequenced.chained {first : Nat} {ops : List Operation}
    {chains : List (List NodeId)} (h : Sequenced first ops chains) :
    ((empty first).performAll ops).build.Chained chains :=
  Graph.build_chained (performAll_wellFormed first ops) h.ordered

end QuestionSynthesis
