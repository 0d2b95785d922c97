import Mathlib.Data.List.Range
import QuestionSynthesis.Proofs.Corpus.Graph
import QuestionSynthesis.Proofs.Corpus.History

/-!
# Collections that fit together

An assembly keeps its nodes, their order and its relationships apart, and a graph adds two indexes.
They agree after every history (`Assembly.Consistent`, `EdgeIndex.Lists`), so no lookup that a graph
makes on the way to an answer ever fails (`Graph.Complete`): nothing is lost on the way.
-/

namespace QuestionSynthesis

namespace Assembly

variable {a : Assembly} {first : Nat} {ops : List Operation}

structure Consistent (a : Assembly) : Prop extends a.WellFormed where
  distinct : a.order.toList.Nodup
  ascending : a.order.toList.Pairwise fun x y => x.val < y.val
  fresh : ∀ id, a.has id = true → id.val < a.nextId
  joined : ∀ r ∈ a.relationships, a.has r.src = true ∧ a.has r.dst = true
  numbered : ∀ (i : Nat) (r : Relationship), a.relationships[i]? = some r → r.id = ⟨i + 1⟩

theorem joins_of_mem_granted {count : Nat} {l : Link} (h : l ∈ granted first count ops) :
    l.joins first (count + (added first ops).length) = true := by
  induction ops using List.reverseRecOn with
  | nil => cases h
  | append_singleton ops op ih =>
    have hlength : (added first ops).length ≤ (added first (ops ++ [op])).length := by
      rw [added_snoc]
      simp
    rw [granted_snoc, List.mem_append] at h
    have hjoins : l.joins first (count + (added first ops).length) = true := by
      rcases h with hearlier | hnow
      · exact ih hearlier
      · exact List.all_eq_true.mp List.all_takeWhile l hnow
    simp only [Link.joins, Bool.and_eq_true, decide_eq_true_eq] at hjoins ⊢
    omega

theorem Records.order_ascending (h : a.Records first ops) :
    a.order.toList.Pairwise fun x y => x.val < y.val := by
  have hvals : (a.order.toList.map NodeId.val).Pairwise (· < ·) := by
    rw [h.order, List.map_map]
    exact (added_ids first ops).symm ▸ List.pairwise_lt_range'
  exact List.pairwise_map.mp hvals

theorem Records.joined (h : a.Records first ops) {r : Relationship} (hr : r ∈ a.relationships) :
    a.has r.src = true ∧ a.has r.dst = true := by
  rw [← Array.mem_toList_iff, h.relationships] at hr
  obtain ⟨⟨l, i⟩, hl, rfl⟩ := List.mem_map.mp hr
  have hjoins := joins_of_mem_granted (List.fst_mem_of_mem_zipIdx hl)
  rw [h.has_iff, h.has_iff, mem_added_ids, mem_added_ids]
  simpa [Link.joins, Link.numbered] using hjoins

theorem Records.numbered (h : a.Records first ops) {i : Nat} {r : Relationship}
    (hr : a.relationships[i]? = some r) : r.id = ⟨i + 1⟩ := by
  rw [← Array.getElem?_toList, h.relationships] at hr
  simp only [accepted, Link.numberedFrom, List.getElem?_map, List.getElem?_zipIdx,
    Option.map_map, Option.map_eq_some_iff] at hr
  obtain ⟨l, -, rfl⟩ := hr
  exact congrArg RelationshipId.mk (Nat.add_comm 1 i)

theorem Records.consistent (h : a.Records first ops) : a.Consistent where
  own k n hn := ((h.nodes ⟨k⟩ n).mp hn).2
  listed id := by
    rw [h.has_iff, ← Array.mem_toList_iff, h.order, List.mem_map]
  distinct := by
    apply h.order_ascending.imp
    intro x y hlt heq
    rw [heq] at hlt
    exact Nat.lt_irrefl _ hlt
  ascending := h.order_ascending
  fresh id hid := by
    rw [h.nextId]
    exact (mem_added_ids.mp ((h.has_iff id).mp hid)).2
  joined _ hr := h.joined hr
  numbered _ _ hr := h.numbered hr

/-- A node that is added gets a new identifier, which is the answer, and is found under it from then
on as it was given. -/
structure Keeps (before : Assembly) (op : Operation) (n : Node) (after : Assembly) : Prop where
  answer : (before.perform op).1 = .ok (.node ⟨before.nextId⟩)
  new : before.has ⟨before.nextId⟩ = false
  larger : ∀ id ∈ before.order, id.val < before.nextId
  last : (before.perform op).2.order = before.order.push ⟨before.nextId⟩
  kept : after.nodes[before.nextId]? = some { n with id := ⟨before.nextId⟩ }

theorem performAll_keeps (first : Nat) (before after : List Operation) {op : Operation} {n : Node}
    (h : op.node? = some n) :
    ((empty first).performAll before).Keeps op n
      ((empty first).performAll (before ++ op :: after)) := by
  have earlier := performAll_records first before
  have later := performAll_records first (before ++ op :: after)
  constructor
  case answer => rw [perform_of_node h]
  case new =>
    rw [Bool.eq_false_iff]
    exact fun hhas => Nat.lt_irrefl _ (earlier.consistent.fresh _ hhas)
  case larger =>
    intro id hid
    exact earlier.consistent.fresh id ((earlier.consistent.listed id).mp hid)
  case last =>
    rw [perform_of_node h]
    rfl
  case kept =>
    rw [earlier.nextId]
    refine (later.nodes ⟨_⟩ _).mpr ⟨?_, rfl⟩
    rw [added_append]
    apply List.mem_append_right
    simp [added, h]

end Assembly

namespace EdgeIndex

structure Lists (t : EdgeIndex) (relationships : List Relationship)
    (ends : Relationship → NodeId) : Prop where
  bounded : ∀ key, ∀ i ∈ t.getD key #[], i < relationships.length
  once : ∀ (i : Nat) (r : Relationship), relationships[i]? = some r →
    ∀ key, (t.getD key #[]).count i = if ends r = ⟨key⟩ then 1 else 0
  ascending : ∀ key, (t.getD key #[]).toList.Pairwise (· < ·)

theorem ofEnds_lists (ends : Relationship → NodeId) (relationships : List Relationship) :
    (ofEnds ends relationships).Lists relationships ends := by
  have hpositions : ∀ key, ((ofEnds ends relationships).getD key #[]).toList =
      (relationships.zipIdx.filter fun p => ends p.1 = ⟨key⟩).map Prod.snd :=
    fun key => ofEnds_getD ends relationships ⟨key⟩
  have hmem : ∀ key i, i ∈ (ofEnds ends relationships).getD key #[] ↔
      ∃ r, relationships[i]? = some r ∧ ends r = ⟨key⟩ := by
    intro key i
    rw [← Array.mem_toList_iff, hpositions]
    simp [List.mem_zipIdx_iff_getElem?]
  have hascending : ∀ key, ((ofEnds ends relationships).getD key #[]).toList.Pairwise (· < ·) := by
    intro key
    rw [hpositions]
    have hall : (relationships.zipIdx.map Prod.snd).Pairwise (· < ·) := by
      rw [List.zipIdx_map_snd]
      exact List.pairwise_lt_range'
    exact hall.sublist (List.filter_sublist.map _)
  constructor
  case bounded =>
    intro key i hi
    obtain ⟨r, hr, -⟩ := (hmem key i).mp hi
    exact (List.getElem?_eq_some_iff.mp hr).1
  case once =>
    intro i r hr key
    have hnodup : ((ofEnds ends relationships).getD key #[]).toList.Nodup :=
      (hascending key).imp fun hlt => Nat.ne_of_lt hlt
    rw [← Array.count_toList]
    split
    · next hend =>
      exact List.count_eq_one_of_mem hnodup
        (Array.mem_toList_iff.mpr ((hmem key i).mpr ⟨r, hr, hend⟩))
    · next hend =>
      apply List.count_eq_zero.mpr
      rw [Array.mem_toList_iff, hmem]
      rintro ⟨r', hr', hend'⟩
      cases hr.symm.trans hr'
      exact hend hend'
  case ascending => exact hascending

end EdgeIndex

theorem mapM_eq_filterMap {α β : Type} {f : α → Option β} {l : List α}
    (h : ∀ a ∈ l, (f a).isSome = true) : l.mapM f = some (l.filterMap f) := by
  induction l with
  | nil => rfl
  | cons a l ih =>
    obtain ⟨b, hb⟩ := Option.isSome_iff_exists.mp (h a List.mem_cons_self)
    have hrest := ih fun c hc => h c (List.mem_cons_of_mem _ hc)
    simp [List.mapM_cons, hb, hrest]

namespace Graph

variable {a : Assembly}

/-- Every lookup by an index, a position or an identifier that a read makes finds something. -/
structure Complete (g : Graph) : Prop where
  order : ∀ id ∈ g.order, ∃ n, g.node? id = some n ∧ n.id = id
  ends : ∀ r ∈ g.relationships, (g.node? r.src).isSome = true ∧ (g.node? r.dst).isSome = true
  outgoing : g.outgoing.Lists g.relationships.toList Relationship.src
  incoming : g.incoming.Lists g.relationships.toList Relationship.dst
  edgesFrom : ∀ id : NodeId,
    (g.outgoing.getD id.val #[]).toList.mapM (g.relationships[·]?) = some (g.edgesFrom id)
  edgesTo : ∀ id : NodeId,
    (g.incoming.getD id.val #[]).toList.mapM (g.relationships[·]?) = some (g.edgesTo id)
  filterNodes : ∃ nodes, g.order.toList.mapM g.node? = some nodes ∧
    ∀ q, g.filterNodes q = nodes.filter q.holds
  sample : ∀ k positions, k ≤ g.order.size → (∀ i ∈ positions, i < g.order.size) →
    ∃ nodes, positions.mapM (fun i => g.order[i]?.bind g.node?) = some nodes ∧
      g.sample k positions = .ok nodes
  neighbour : ∀ id d y, g.neighbour? id d = some y → (g.node? y).isSome = true
  similar : ∀ id nodes, g.similar id = .ok nodes →
    nodes.length = ((g.edgesFrom id).filter (·.hasLabel similarLabel)).length

theorem edges_total {g : Graph} {index : EdgeIndex} {ends : Relationship → NodeId}
    (lists : index.Lists g.relationships.toList ends) (id : NodeId) :
    (index.getD id.val #[]).toList.mapM (g.relationships[·]?) = some (g.edges index id) := by
  apply mapM_eq_filterMap
  intro i hi
  have hbound := lists.bounded id.val i (Array.mem_toList_iff.mp hi)
  simpa using hbound

theorem neighbour?_known {g : Graph} {id y : NodeId} {d : Direction}
    (ends : ∀ r ∈ g.relationships, (g.node? r.src).isSome = true ∧ (g.node? r.dst).isSome = true)
    (h : g.neighbour? id d = some y) : (g.node? y).isSome = true := by
  have hmem : ∀ (index : EdgeIndex) (r : Relationship), r ∈ g.edges index id →
      r ∈ g.relationships := by
    intro index r hr
    obtain ⟨i, -, hi⟩ := List.mem_filterMap.mp hr
    exact Array.mem_of_getElem? hi
  unfold neighbour? at h
  split at h
  · next r hr =>
    cases h
    exact (ends r (hmem _ r (List.mem_of_find?_eq_some hr))).2
  · obtain ⟨r, hr, rfl⟩ := Option.map_eq_some_iff.mp h
    exact (ends r (hmem _ r (List.mem_of_find?_eq_some hr))).1

theorem sample_total {g : Graph}
    (order : ∀ id ∈ g.order, ∃ n, g.node? id = some n ∧ n.id = id) {k : Nat} {positions : List Nat}
    (enough : k ≤ g.order.size) (bounded : ∀ i ∈ positions, i < g.order.size) :
    ∃ nodes, positions.mapM (fun i => g.order[i]?.bind g.node?) = some nodes ∧
      g.sample k positions = .ok nodes := by
  refine ⟨_, mapM_eq_filterMap fun i hi => ?_, if_neg (Nat.not_lt.mpr enough)⟩
  have hbound := bounded i hi
  obtain ⟨n, hn, -⟩ := order g.order[i] (Array.getElem_mem hbound)
  simp [hbound, hn]

theorem similar_total {g : Graph} {id : NodeId} {nodes : List Node}
    (known : ∀ r ∈ g.edgesFrom id, (g.node? r.dst).isSome = true)
    (h : g.similar id = .ok nodes) :
    nodes.length = ((g.edgesFrom id).filter (·.hasLabel similarLabel)).length := by
  cases hrequire : g.require id with
  | error e =>
    simp only [similar, hrequire] at h
    cases h
  | ok u =>
    simp only [similar, hrequire] at h
    cases Except.ok.inj h
    rw [List.length_filterMap_eq_countP, List.countP_eq_length.mpr, List.length_mergeSort,
      List.length_map]
    intro p hp
    obtain ⟨r, hr, rfl⟩ := List.mem_map.mp (List.mem_mergeSort.mp hp)
    exact known r (List.mem_filter.mp hr).1

theorem build_complete (h : a.Consistent) : a.build.Complete := by
  have hfound : ∀ id, a.has id = true → ∃ n, a.build.node? id = some n ∧ n.id = id := by
    intro id hid
    obtain ⟨n, hn⟩ := exists_node? hid
    exact ⟨n, hn, build_owns h.toWellFormed id n hn⟩
  have hknown : ∀ id, a.has id = true → (a.build.node? id).isSome = true := by
    intro id hid
    obtain ⟨n, hn, -⟩ := hfound id hid
    exact Option.isSome_iff_exists.mpr ⟨n, hn⟩
  have order : ∀ id ∈ a.build.order, ∃ n, a.build.node? id = some n ∧ n.id = id :=
    fun id hid => hfound id ((h.listed id).mp hid)
  have ends : ∀ r ∈ a.build.relationships,
      (a.build.node? r.src).isSome = true ∧ (a.build.node? r.dst).isSome = true := by
    intro r hr
    obtain ⟨hsrc, hdst⟩ := h.joined r hr
    exact ⟨hknown _ hsrc, hknown _ hdst⟩
  have outgoing := EdgeIndex.ofEnds_lists Relationship.src a.relationships.toList
  have incoming := EdgeIndex.ofEnds_lists Relationship.dst a.relationships.toList
  constructor
  case order => exact order
  case ends => exact ends
  case outgoing => exact outgoing
  case incoming => exact incoming
  case edgesFrom => exact edges_total (g := a.build) outgoing
  case edgesTo => exact edges_total (g := a.build) incoming
  case filterNodes =>
    refine ⟨_, mapM_eq_filterMap fun id hid => ?_, fun q => rfl⟩
    exact hknown id ((h.listed id).mp (Array.mem_toList_iff.mp hid))
  case sample => exact fun k positions => sample_total order
  case neighbour => exact fun id d y => neighbour?_known ends
  case similar =>
    intro id nodes
    apply similar_total
    intro r hr
    rw [edgesFrom_build] at hr
    exact (ends r (Array.mem_toList_iff.mp (List.mem_filter.mp hr).1)).2

end Graph

namespace Assembly

/-- After any operations, failed ones included, the collections of an assembly fit together. Its graph
holds these collections as they are, and no lookup in it fails. Every node is still there as it was
added, and a relationship that is refused has changed nothing. -/
theorem history_consistent (first : Nat) (ops : List Operation) :
    let a := (empty first).performAll ops
    a.Consistent ∧
      (a.build.nodes = a.nodes ∧ a.build.order = a.order ∧
        a.build.relationships = a.relationships) ∧
      a.build.Complete ∧
      (∀ before op after n, ops = before ++ op :: after → op.node? = some n →
        ((empty first).performAll before).Keeps op n a) ∧
      ∀ src dst label properties e, (a.relate src dst label properties).1 = .error e →
        (a.relate src dst label properties).2 = a := by
  intro a
  have consistent : a.Consistent := (performAll_records first ops).consistent
  have frozen : a.build.nodes = a.nodes ∧ a.build.order = a.order ∧
      a.build.relationships = a.relationships := ⟨rfl, rfl, rfl⟩
  refine ⟨consistent, frozen, Graph.build_complete consistent, ?_, fun _ _ _ _ _ => relate_of_error⟩
  rintro before op after n rfl hnode
  exact performAll_keeps first before after hnode

end Assembly

end QuestionSynthesis
