import QuestionSynthesis.Proofs.Corpus.Consistency

/-!
# Reads as scans

A graph answers out of its indexes what a scan of its history would answer: of the nodes in the
order in which they were added, and of the relationships in the order in which they were accepted
(`reads_scan`). A query is a conjunction of the parts that are set (`MetBy`), so a query for nodes
gives what its parts give in common.
-/

namespace QuestionSynthesis

def PropertyPredicate.MetBy (p : PropertyPredicate) (properties : Properties) : Prop :=
  ∃ actual, Entries.get? p.key properties = some actual ∧
    p.comparison.holds actual p.value = true

theorem PropertyPredicate.holds_iff (p : PropertyPredicate) (properties : Properties) :
    p.holds properties = true ↔ p.MetBy properties := by
  unfold holds MetBy
  cases Entries.get? p.key properties with
  | none => simp
  | some actual => simp

namespace NodeQuery

variable {q : NodeQuery} {n : Node}

/-- Every part of the query that is set holds of the node. -/
structure MetBy (q : NodeQuery) (n : Node) : Prop where
  ids : ∀ ids, q.ids = some ids → n.id ∈ ids
  label : ∀ label, q.label = some label → n.label = label
  level : ∀ level, q.level = some level → n.level = some level
  property : ∀ name v, q.property = some (name, v) →
    ∃ actual, n.get? name = some actual ∧ actual.looseEq v = true

theorem holds_iff (q : NodeQuery) (n : Node) : q.holds n = true ↔ q.MetBy n := by
  constructor
  · intro h
    simp only [holds, Bool.and_eq_true, Option.all_eq_true, beq_iff_eq, Option.any_eq_true] at h
    obtain ⟨⟨⟨hids, hlabel⟩, hlevel⟩, hproperty⟩ := h
    constructor
    case ids => exact fun ids hq => by simpa using hids ids hq
    case label => exact fun label hq => (hlabel label hq).symm
    case level => exact fun level hq => (hlevel level hq).symm
    case property => exact fun name v hq => hproperty (name, v) hq
  · intro h
    simp only [holds, Bool.and_eq_true, Option.all_eq_true, beq_iff_eq, Option.any_eq_true]
    refine ⟨⟨⟨?_, ?_⟩, ?_⟩, ?_⟩
    · exact fun ids hq => by simpa using h.ids ids hq
    · exact fun label hq => (h.label label hq).symm
    · exact fun level hq => (h.level level hq).symm
    · exact fun p hq => h.property p.1 p.2 hq

instance (q : NodeQuery) (n : Node) : Decidable (q.MetBy n) :=
  decidable_of_iff _ (q.holds_iff n)

theorem metBy_iff_parts :
    q.MetBy n ↔ MetBy { ids := q.ids } n ∧ MetBy { label := q.label } n ∧
      MetBy { level := q.level } n ∧ MetBy { property := q.property } n := by
  constructor
  · intro h
    exact ⟨⟨h.ids, nofun, nofun, nofun⟩, ⟨nofun, h.label, nofun, nofun⟩,
      ⟨nofun, nofun, h.level, nofun⟩, ⟨nofun, nofun, nofun, h.property⟩⟩
  · rintro ⟨hids, hlabel, hlevel, hproperty⟩
    exact ⟨hids.ids, hlabel.label, hlevel.level, hproperty.property⟩

end NodeQuery

namespace TargetFilter

structure MetBy (f : TargetFilter) (target : Node) : Prop where
  label : ∀ label, f.label = some label → target.label = label
  property : ∀ p, f.property = some p → p.MetBy target.properties

theorem holds_iff (f : TargetFilter) (target : Node) : f.holds target = true ↔ f.MetBy target := by
  simp only [holds, Bool.and_eq_true, Option.all_eq_true, beq_iff_eq,
    PropertyPredicate.holds_iff]
  constructor
  · rintro ⟨hlabel, hproperty⟩
    exact ⟨fun label hf => (hlabel label hf).symm, hproperty⟩
  · intro h
    exact ⟨fun label hf => (h.label label hf).symm, h.property⟩

end TargetFilter

namespace RelationshipQuery

structure MetBy (q : RelationshipQuery) (nodes : List Node) (r : Relationship) : Prop where
  label : ∀ label, q.label = some label → r.label = label
  property : ∀ p, q.property = some p → p.MetBy r.properties
  target : ∀ f, q.target = some f → ∃ n ∈ nodes, n.id = r.dst ∧ f.MetBy n

theorem holds_iff (q : RelationshipQuery) (r : Relationship) (target : Node) :
    q.holds r target = true ↔
      (∀ label, q.label = some label → r.label = label) ∧
      (∀ p, q.property = some p → p.MetBy r.properties) ∧
      ∀ f, q.target = some f → f.MetBy target := by
  simp only [holds, Bool.and_eq_true, Option.all_eq_true, Relationship.hasLabel, beq_iff_eq,
    PropertyPredicate.holds_iff, TargetFilter.holds_iff, and_assoc]

instance (q : RelationshipQuery) (nodes : List Node) (r : Relationship) :
    Decidable (q.MetBy nodes r) :=
  decidable_of_iff
    ((∀ label ∈ q.label, r.label = label) ∧ (∀ p ∈ q.property, p.holds r.properties = true) ∧
      ∀ f ∈ q.target, ∃ n ∈ nodes, n.id = r.dst ∧ f.holds n = true) <| by
    simp only [PropertyPredicate.holds_iff, TargetFilter.holds_iff]
    exact ⟨fun h => ⟨h.1, h.2.1, h.2.2⟩, fun h => ⟨h.label, h.property, h.target⟩⟩

theorem metBy_iff {nodes : List Node} {r : Relationship} {target : Node} (q : RelationshipQuery)
    (leads : ∀ n, n ∈ nodes ∧ n.id = r.dst ↔ n = target) :
    q.MetBy nodes r ↔ q.holds r target = true := by
  rw [holds_iff]
  obtain ⟨hmem, hid⟩ := (leads target).mpr rfl
  constructor
  · intro h
    refine ⟨h.label, h.property, fun f hf => ?_⟩
    obtain ⟨n, hn, hdst, met⟩ := h.target f hf
    exact (leads n).mp ⟨hn, hdst⟩ ▸ met
  · rintro ⟨hlabel, hproperty, htarget⟩
    exact ⟨hlabel, hproperty, fun f hf => ⟨target, hmem, hid, htarget f hf⟩⟩

end RelationshipQuery

namespace Graph

variable {g : Graph} {x : NodeId} {α : Type}

theorem require_bind_of_known (known : (g.node? x).isSome = true) (v : Except Error α) :
    (g.require x >>= fun _ => v) = v := by
  rw [require, if_pos known]
  rfl

theorem require_bind_error_iff {e : Error} (v : α) :
    (g.require x >>= fun _ => Except.ok v) = .error e ↔
      e = .unknownNode x ∧ (g.node? x).isSome = false := by
  cases known : (g.node? x).isSome with
  | true =>
    rw [require_bind_of_known known]
    simp
  | false =>
    have hrequire : g.require x = .error (.unknownNode x) := by simp [require, known]
    rw [hrequire]
    simp [bind, Except.bind, eq_comm]

end Graph

namespace Assembly

variable {a : Assembly} {first : Nat} {ops : List Operation} {x : NodeId}

theorem Records.node?_isSome (h : a.Records first ops) (x : NodeId) :
    (a.build.node? x).isSome = true ↔ ∃ n ∈ added first ops, n.id = x := by
  rw [← h.has_iff, Assembly.has_iff, ← Std.TreeMap.isSome_getElem?_iff_mem]
  rfl

theorem Records.node?_isSome_eq_false (h : a.Records first ops) (x : NodeId) :
    (a.build.node? x).isSome = false ↔ ∀ n ∈ added first ops, n.id ≠ x := by
  rw [← Bool.not_eq_true, h.node?_isSome x]
  simp

theorem Records.filterMap_order (h : a.Records first ops) :
    a.order.toList.filterMap a.build.node? = added first ops := by
  have hfound : ∀ n ∈ added first ops, a.build.node? n.id = some n :=
    fun n hn => (h.nodes n.id n).mpr ⟨hn, rfl⟩
  rw [h.order, List.filterMap_map]
  exact (List.filterMap_congr hfound).trans List.filterMap_some

theorem Records.filterNodes_eq (h : a.Records first ops) (q : NodeQuery) :
    a.build.filterNodes q = (added first ops).filter fun n => q.MetBy n := by
  rw [Graph.filterNodes]
  have horder := h.filterMap_order
  rw [show a.build.order = a.order from rfl, horder]
  apply List.filter_congr
  intro n _
  rw [Bool.eq_iff_iff, q.holds_iff, decide_eq_true_iff]

theorem Records.mem_filterNodes (h : a.Records first ops) (q : NodeQuery) (n : Node) :
    n ∈ a.build.filterNodes q ↔ n ∈ added first ops ∧ q.MetBy n := by
  rw [h.filterNodes_eq, List.mem_filter, decide_eq_true_iff]

open Classical in
theorem Records.filterNodes_parts (h : a.Records first ops) (q : NodeQuery) :
    a.build.filterNodes q = (a.build.filterNodes { ids := q.ids }).filter fun n =>
      n ∈ a.build.filterNodes { label := q.label } ∧
        n ∈ a.build.filterNodes { level := q.level } ∧
          n ∈ a.build.filterNodes { property := q.property } := by
  rw [h.filterNodes_eq q, h.filterNodes_eq { ids := q.ids }, List.filter_filter]
  apply List.filter_congr
  intro n hn
  rw [Bool.eq_iff_iff, Bool.and_eq_true, decide_eq_true_iff, decide_eq_true_iff,
    decide_eq_true_iff, NodeQuery.metBy_iff_parts, h.mem_filterNodes, h.mem_filterNodes,
    h.mem_filterNodes, and_comm]
  simp only [hn, true_and]

theorem Records.leads (h : a.Records first ops) {y : NodeId} {target : Node}
    (hy : a.build.node? y = some target) (n : Node) :
    n ∈ added first ops ∧ n.id = y ↔ n = target := by
  rw [← h.nodes y n, show a.nodes[y.val]? = some target from hy, Option.some.injEq, eq_comm]

theorem Records.edgesFrom_eq (h : a.Records first ops) (x : NodeId) :
    a.build.edgesFrom x = (accepted first ops).filter fun r => r.src = x := by
  rw [Graph.edgesFrom_build, h.relationships]

theorem neighbour?_scan (a : Assembly) (x : NodeId) (d : Direction) :
    a.build.neighbour? x d =
      ((a.relationships.toList.find? fun r => r.src = x ∧ r.label = d.label).map
        Relationship.dst).or
      ((a.relationships.toList.find? fun r => r.dst = x ∧ r.label = d.opposite.label).map
        Relationship.src) := by
  have hscan : ∀ (p : Relationship → Prop) [DecidablePred p] (label : String),
      (a.relationships.toList.filter fun r => p r).find? (·.hasLabel label) =
        a.relationships.toList.find? fun r => p r ∧ r.label = label := by
    intro p _ label
    rw [List.find?_filter]
    congr 1
    funext r
    simp [Relationship.hasLabel, Bool.beq_eq_decide_eq]
  rw [Graph.neighbour?, Graph.edgesFrom_build, Graph.edgesTo_build, hscan, hscan]
  split
  · next r hr => rw [hr]; rfl
  · next hr => rw [hr]; rfl

theorem Records.neighbour?_eq (h : a.Records first ops) (x : NodeId) (d : Direction) :
    a.build.neighbour? x d =
      (((accepted first ops).find? fun r => r.src = x ∧ r.label = d.label).map
        Relationship.dst).or
      (((accepted first ops).find? fun r => r.dst = x ∧ r.label = d.opposite.label).map
        Relationship.src) := by
  rw [neighbour?_scan, h.relationships]

theorem Records.adjacent_eq (h : a.Records first ops)
    (known : ∃ n ∈ added first ops, n.id = x) (d : Direction) :
    ∃ found, a.build.adjacent x d = .ok found ∧ (∀ n ∈ found, n ∈ added first ops) ∧
      found.map Node.id = a.build.neighbour? x d := by
  refine ⟨_, Graph.require_bind_of_known ((h.node?_isSome x).mpr known) _, ?_, ?_⟩
  · intro n hn
    obtain ⟨y, -, hnode⟩ := Option.bind_eq_some_iff.mp hn
    exact ((h.nodes y n).mp hnode).1
  · cases hy : a.build.neighbour? x d with
    | none => rfl
    | some y =>
      have complete := Graph.build_complete h.consistent
      obtain ⟨n, hn⟩ := Option.isSome_iff_exists.mp (complete.neighbour x d y hy)
      simp [hn, ((h.nodes y n).mp hn).2]

theorem Records.relationshipsOf_eq (h : a.Records first ops)
    (known : ∃ n ∈ added first ops, n.id = x) (q : RelationshipQuery) :
    a.build.relationshipsOf x q =
      .ok ((accepted first ops).filter fun r => r.src = x ∧ q.MetBy (added first ops) r) := by
  have complete := Graph.build_complete h.consistent
  rw [Graph.relationshipsOf, Graph.require_bind_of_known ((h.node?_isSome x).mpr known),
    h.edgesFrom_eq, List.filter_filter]
  refine congrArg Except.ok (List.filter_congr fun r hr => ?_)
  have hrel : r ∈ a.build.relationships := by
    rw [← Array.mem_toList_iff]
    exact h.relationships ▸ hr
  obtain ⟨target, htarget⟩ := Option.isSome_iff_exists.mp (complete.ends r hrel).2
  rw [htarget, Option.any_some, Bool.eq_iff_iff, Bool.and_eq_true, decide_eq_true_iff,
    decide_eq_true_iff, q.metBy_iff (h.leads htarget), and_comm]

open Classical in
/-- Every read of a graph is a scan of the nodes that its history adds or of the relationships that
its history is granted, and fails only for a node that was never added. -/
theorem reads_scan (first : Nat) (ops : List Operation) :
    let g := ((empty first).performAll ops).build
    let nodes := added first ops
    let edges := accepted first ops
    (∀ x, (∃ n ∈ nodes, n.id = x) →
      (∀ d, ∃ found, g.adjacent x d = .ok found ∧ (∀ n ∈ found, n ∈ nodes) ∧
        found.map Node.id =
          ((edges.find? fun r => r.src = x ∧ r.label = d.label).map Relationship.dst).or
          ((edges.find? fun r => r.dst = x ∧ r.label = d.opposite.label).map Relationship.src)) ∧
      ∀ q, g.relationshipsOf x q = .ok (edges.filter fun r => r.src = x ∧ q.MetBy nodes r)) ∧
    (∀ q, g.filterNodes q = (nodes.filter fun n => q.MetBy n) ∧
      g.filterNodes q = (g.filterNodes { ids := q.ids }).filter fun n =>
        n ∈ g.filterNodes { label := q.label } ∧ n ∈ g.filterNodes { level := q.level } ∧
          n ∈ g.filterNodes { property := q.property }) ∧
    ∀ x e,
      (∀ d, g.adjacent x d = .error e ↔
        e = .notFound s!"Node {x.val}" ∧ ∀ n ∈ nodes, n.id ≠ x) ∧
      (g.similar x = .error e ↔ e = .notFound s!"Node {x.val}" ∧ ∀ n ∈ nodes, n.id ≠ x) ∧
      ∀ q, g.relationshipsOf x q = .error e ↔
        e = .notFound s!"Node {x.val}" ∧ ∀ n ∈ nodes, n.id ≠ x := by
  intro g nodes edges
  have h := performAll_records first ops
  refine ⟨fun x known => ⟨fun d => ?_, h.relationshipsOf_eq known⟩,
    fun q => ⟨h.filterNodes_eq q, h.filterNodes_parts q⟩, fun x e => ?_⟩
  · rw [← h.neighbour?_eq x d]
    exact h.adjacent_eq known d
  · simp only [nodes, ← h.node?_isSome_eq_false x]
    exact ⟨fun d => Graph.require_bind_error_iff _, Graph.require_bind_error_iff _,
      fun q => Graph.require_bind_error_iff _⟩

end Assembly

end QuestionSynthesis
