import QuestionSynthesis.Proofs.Corpus.Sequences

/-!
# Walks along chains

Over chains that share no chunk the two directions undo each other: from a chunk the graph leads
ahead to the chunk that follows it in a chain, and from there back (`Graph.Chained.leads_iff`). A
walk from one end of a chain visits the whole chain in order and stops at the other end
(`chains_navigable`).
-/

namespace QuestionSynthesis

def Direction.onward (before after : List NodeId) : Direction → List NodeId
  | prev => before.reverse
  | next => after

namespace Direction

variable {d : Direction} {x y : NodeId} {before after path : List NodeId}

theorem head?_onward : (d.onward before after).head? = d.beyond? before after := by
  cases d with
  | prev => exact List.head?_reverse
  | next => rfl

theorem exists_split_of_onward (x : NodeId) (h : d.onward before after = y :: path) :
    ∃ before' after', before ++ x :: after = before' ++ y :: after' ∧
      d.onward before' after' = path := by
  cases d with
  | prev =>
    obtain rfl : before = path.reverse ++ [y] := by
      rw [← List.reverse_reverse before, show before.reverse = y :: path from h, List.reverse_cons]
    exact ⟨path.reverse, x :: after, by simp, List.reverse_reverse path⟩
  | next =>
    obtain rfl : after = y :: path := h
    exact ⟨before ++ [x], path, by simp, rfl⟩

end Direction

namespace Graph

variable {g : Graph} {chains : List (List NodeId)} {d : Direction} {x y z : NodeId}
  {before after path path' : List NodeId}

def Leads (g : Graph) (x : NodeId) (d : Direction) (y : NodeId) : Prop :=
  ∃ n, g.adjacent x d = .ok (some n) ∧ n.id = y

theorem Leads.unique (h : g.Leads x d y) (h' : g.Leads x d z) : y = z := by
  obtain ⟨n, hn, rfl⟩ := h
  obtain ⟨m, hm, rfl⟩ := h'
  cases hn.symm.trans hm
  rfl

/-- A walk: from a node in one direction for as long as the graph leads on. -/
inductive Walk (g : Graph) (d : Direction) : NodeId → List NodeId → Prop where
  | stop {x : NodeId} (ends : g.adjacent x d = .ok none) : Walk g d x [x]
  | step {x y : NodeId} {path : List NodeId} (leads : g.Leads x d y) (rest : Walk g d y path) :
      Walk g d x (x :: path)

theorem Walk.unique (h : g.Walk d x path) (h' : g.Walk d x path') : path = path' := by
  induction h generalizing path' with
  | stop ends =>
    cases h' with
    | stop => rfl
    | step leads rest =>
      obtain ⟨n, hn, -⟩ := leads
      cases ends.symm.trans hn
  | step leads rest ih =>
    cases h' with
    | stop ends =>
      obtain ⟨n, hn, -⟩ := leads
      cases ends.symm.trans hn
    | step leads' rest' =>
      obtain rfl := leads.unique leads'
      rw [ih rest']

namespace Chained

theorem leads_on (h : g.Chained chains) (on : before ++ x :: after ∈ chains) :
    g.Leads x d y ↔ d.beyond? before after = some y := by
  obtain ⟨found, hfound, hids⟩ := h.adjacent_on on d
  rw [Leads, hfound, ← hids]
  cases found with
  | none => simp
  | some n => simp

theorem stops_on (h : g.Chained chains) (on : before ++ x :: after ∈ chains)
    (last : d.beyond? before after = none) : g.adjacent x d = .ok none := by
  obtain ⟨found, hfound, hids⟩ := h.adjacent_on on d
  rw [last, Option.map_eq_none_iff] at hids
  rw [hfound, hids]

theorem leads_iff (h : g.Chained chains) :
    g.Leads x d y ↔ ∃ c ∈ chains, d.pair x y <:+: c := by
  constructor
  · intro leads
    by_cases on : ∃ c ∈ chains, x ∈ c
    · obtain ⟨c, hc, hx⟩ := on
      obtain ⟨before, after, rfl⟩ := List.append_of_mem hx
      exact ⟨_, hc, (Direction.pair_infix_iff (h.distinct _ hc)).mpr ((h.leads_on hc).mp leads)⟩
    · obtain ⟨n, hn, -⟩ := leads
      exact absurd hn (h.adjacent_off (fun c hc hx => on ⟨c, hc, hx⟩) d n)
  · intro ⟨c, hc, hpair⟩
    obtain ⟨before, after, rfl⟩ := List.append_of_mem (hpair.subset (d.mem_pair x y).1)
    exact (h.leads_on hc).mpr ((Direction.pair_infix_iff (h.distinct _ hc)).mp hpair)

theorem leads_opposite (h : g.Chained chains) : g.Leads y d.opposite x ↔ g.Leads x d y := by
  rw [h.leads_iff, h.leads_iff, Direction.pair_opposite]

theorem walk (h : g.Chained chains) (on : before ++ x :: after ∈ chains) :
    g.Walk d x (x :: d.onward before after) := by
  generalize hpath : d.onward before after = path
  induction path generalizing before x after with
  | nil =>
    refine .stop (h.stops_on on ?_)
    rw [← Direction.head?_onward, hpath, List.head?_nil]
  | cons y path ih =>
    have next : d.beyond? before after = some y := by
      rw [← Direction.head?_onward, hpath, List.head?_cons]
    obtain ⟨before', after', split, rest⟩ := Direction.exists_split_of_onward x hpath
    exact .step ((h.leads_on on).mpr next) (ih (split ▸ on) rest)

end Chained

end Graph

open QuestionSynthesis.Graph (Leads Walk) in
/-- Over chains that operations have linked, one chunk leads ahead to another exactly if it stands
right before it in a chain, and exactly then the other leads back to it. The ends of a chain lead
nowhere, and the walk from one end to the other is the chain. -/
theorem chains_navigable {first : Nat} {ops : List Assembly.Operation}
    {chains : List (List NodeId)} (linked : Assembly.Sequenced first ops chains) :
    let g := ((Assembly.empty first).performAll ops).build
    (∀ a b, (Leads g a .next b ↔ ∃ c ∈ chains, [a, b] <:+: c) ∧
      (Leads g a .next b ↔ Leads g b .prev a)) ∧
    (∀ d a b b', Leads g a d b → Leads g a d b' → b = b') ∧
    (∀ d a a' b, Leads g a d b → Leads g a' d b → a = a') ∧
    (∀ c ∈ chains, ∀ x, c.head? = some x →
      g.adjacent x .prev = .ok none ∧ ∀ path, Walk g .next x path ↔ path = c) ∧
    ∀ c ∈ chains, ∀ x, c.getLast? = some x →
      g.adjacent x .next = .ok none ∧ ∀ path, Walk g .prev x path ↔ path = c.reverse := by
  intro g
  have h : g.Chained chains := linked.chained
  refine ⟨fun a b => ⟨h.leads_iff, (h.leads_opposite (d := .next)).symm⟩,
    fun d a b b' => Leads.unique, fun d a a' b leads leads' => ?_, fun c hc x first => ?_,
    fun c hc x last => ?_⟩
  · exact (h.leads_opposite.mpr leads).unique (h.leads_opposite.mpr leads')
  · obtain ⟨after, rfl⟩ := List.head?_eq_some_iff.mp first
    have on : [] ++ x :: after ∈ chains := hc
    have whole : Walk g .next x (x :: after) := h.walk on
    exact ⟨h.stops_on on rfl, fun path => ⟨fun w => w.unique whole, fun e => e ▸ whole⟩⟩
  · obtain ⟨before, rfl⟩ := List.getLast?_eq_some_iff.mp last
    have whole : Walk g .prev x (before ++ [x]).reverse := by
      rw [List.reverse_concat]
      exact h.walk hc
    exact ⟨h.stops_on hc rfl, fun path => ⟨fun w => w.unique whole, fun e => e ▸ whole⟩⟩

namespace Assembly

/-- Two chains, one of them against the order of the chunks, with other links between them. -/
def twoChains : List Operation :=
  [.addChunk "d" "one", .addChunk "d" "two", .linkSequence [⟨2⟩, ⟨1⟩], .addChunk "e" "three",
    .addChunk "e" "four", .addChunk "e" "five", .linkSimilar ⟨1⟩ ⟨3⟩ .zero,
    .linkSequence [⟨3⟩, ⟨4⟩, ⟨5⟩], .relate ⟨5⟩ ⟨2⟩ "CITES" []]

theorem twoChains_sequenced : Sequenced 1 twoChains [[⟨3⟩, ⟨4⟩, ⟨5⟩], [⟨2⟩, ⟨1⟩]] := by
  have one : Sequenced 1 (twoChains.take 3) [[⟨2⟩, ⟨1⟩]] :=
    ((Sequenced.nil.other (leaves_addChunk _ "d" "one")).other (leaves_addChunk _ "d" "two")).link
      (by decide +kernel) (by decide) (by simp)
  have more : Sequenced 1 (twoChains.take 7) [[⟨2⟩, ⟨1⟩]] :=
    (((one.other (leaves_addChunk _ "e" "three")).other (leaves_addChunk _ "e" "four")).other
      (leaves_addChunk _ "e" "five")).other (leaves_linkSimilar _ ⟨1⟩ ⟨3⟩ .zero)
  have both : Sequenced 1 (twoChains.take 8) [[⟨3⟩, ⟨4⟩, ⟨5⟩], [⟨2⟩, ⟨1⟩]] :=
    more.link (by decide +kernel) (by decide) (by simp)
  exact both.other (leaves_relate _ ⟨5⟩ ⟨2⟩ [] fun d => by cases d <;> decide)

end Assembly

open QuestionSynthesis.Graph (Leads Walk) in
theorem chains_navigable_two :
    Assembly.Sequenced 1 Assembly.twoChains [[⟨3⟩, ⟨4⟩, ⟨5⟩], [⟨2⟩, ⟨1⟩]] ∧
    let g := ((Assembly.empty 1).performAll Assembly.twoChains).build
    Leads g ⟨2⟩ .next ⟨1⟩ ∧ Leads g ⟨1⟩ .prev ⟨2⟩ ∧ g.adjacent ⟨1⟩ .next = .ok none ∧
      Walk g .next ⟨3⟩ [⟨3⟩, ⟨4⟩, ⟨5⟩] := by
  obtain ⟨pairs, -, -, starts, ends⟩ := chains_navigable Assembly.twoChains_sequenced
  have ahead := (pairs ⟨2⟩ ⟨1⟩).1.mpr ⟨[⟨2⟩, ⟨1⟩], by simp, List.infix_rfl⟩
  exact ⟨Assembly.twoChains_sequenced, ahead, (pairs _ _).2.mp ahead,
    (ends [⟨2⟩, ⟨1⟩] (by simp) ⟨1⟩ rfl).1,
    ((starts [⟨3⟩, ⟨4⟩, ⟨5⟩] (by simp) ⟨3⟩ rfl).2 _).mpr rfl⟩

end QuestionSynthesis
