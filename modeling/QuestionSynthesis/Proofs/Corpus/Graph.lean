import Mathlib.Data.List.Basic
import Mathlib.Data.List.Nodup
import Mathlib.Data.List.Perm.Subperm
import QuestionSynthesis.Dialogue.GraphStore
import QuestionSynthesis.Proofs.Corpus.Assembly

/-!
# Reads of a finished graph

The edges of a node, read through an index, are those that a scan of all relationships finds, in the
order in which they were added (`edgesFrom_build`, `edgesTo_build`). A neighbour is then what the
first match of a scan leads to.
-/

namespace QuestionSynthesis

namespace EdgeIndex

theorem note_getD (t : EdgeIndex) (id key : NodeId) (position : Nat) :
    (t.note id position).getD key.val #[] =
      if id = key then (t.getD key.val #[]).push position else t.getD key.val #[] := by
  have hid : id = key ↔ id.val = key.val := by
    cases id
    cases key
    simp
  simp only [note, Std.TreeMap.getD_insert, Std.LawfulEqCmp.compare_eq_iff_eq, hid]
  split
  · next h => rw [h]
  · rfl

theorem foldl_note_getD (ends : Relationship → NodeId) (l : List (Relationship × Nat))
    (t : EdgeIndex) (key : NodeId) :
    ((l.foldl (fun t p => t.note (ends p.1) p.2) t).getD key.val #[]).toList =
      (t.getD key.val #[]).toList ++ (l.filter fun p => ends p.1 = key).map Prod.snd := by
  induction l generalizing t with
  | nil => simp
  | cons p l ih =>
    rw [List.foldl_cons, ih, note_getD]
    by_cases h : ends p.1 = key
    · simp [h]
    · simp [h]

theorem ofEnds_getD (ends : Relationship → NodeId) (relationships : List Relationship)
    (key : NodeId) :
    ((ofEnds ends relationships).getD key.val #[]).toList =
      (relationships.zipIdx.filter fun p => ends p.1 = key).map Prod.snd := by
  have h := foldl_note_getD ends relationships.zipIdx ∅ key
  simpa [ofEnds] using h

end EdgeIndex

theorem filterMap_zipIdx_filter (relationships : List Relationship) (p : Relationship → Bool) :
    ((relationships.zipIdx.filter fun q => p q.1).map Prod.snd).filterMap (relationships[·]?) =
      relationships.filter p := by
  have hlook : ∀ q ∈ relationships.zipIdx.filter (fun q => p q.1),
      relationships[q.2]? = some q.1 := by
    intro q hq
    exact List.mem_zipIdx_iff_getElem?.mp (List.mem_filter.mp hq).1
  calc
    _ = (relationships.zipIdx.filter fun q => p q.1).filterMap (fun q => some q.1) := by
      rw [List.filterMap_map]
      exact List.filterMap_congr hlook
    _ = (relationships.zipIdx.filter fun q => p q.1).map Prod.fst := by
      rw [← List.filterMap_eq_map]
      rfl
    _ = relationships.filter p := by
      have h := List.filter_map (l := relationships.zipIdx) (f := Prod.fst) (p := p)
      rw [List.zipIdx_map_fst] at h
      exact h.symm

/-- A chooser that is asked for one position gives one of those there are. -/
def Chooser.PicksOne (choose : Chooser) : Prop :=
  ∀ t available, 0 < available → ∃ i, choose t available 1 = [i] ∧ i < available

theorem Chooser.Sound.picksOne {choose : Chooser} (h : choose.Sound) : choose.PicksOne := by
  intro t available some
  obtain ⟨hlength, -, hbound⟩ := h t available 1 some
  obtain ⟨i, hi⟩ := List.length_eq_one_iff.mp hlength
  exact ⟨i, hi, hbound i (by simp [hi])⟩

namespace Graph

theorem edgesFrom_build (a : Assembly) (id : NodeId) :
    a.build.edgesFrom id = a.relationships.toList.filter fun r => r.src = id := by
  have h := filterMap_zipIdx_filter a.relationships.toList fun r => r.src = id
  simp only [edgesFrom, edges, Assembly.build, EdgeIndex.ofEnds_getD]
  simpa using h

theorem edgesTo_build (a : Assembly) (id : NodeId) :
    a.build.edgesTo id = a.relationships.toList.filter fun r => r.dst = id := by
  have h := filterMap_zipIdx_filter a.relationships.toList fun r => r.dst = id
  simp only [edgesTo, edges, Assembly.build, EdgeIndex.ofEnds_getD]
  simpa using h

variable {g : Graph} {id : NodeId} {n : Node} {d : Direction}

def Neighbours (g : Graph) (x y : Node) : Prop :=
  g.adjacent y.id .prev = .ok (some x) ∨ g.adjacent x.id .next = .ok (some y)

def Owns (g : Graph) : Prop := ∀ id n, g.node? id = some n → n.id = id

theorem build_owns {a : Assembly} (wf : a.WellFormed) : a.build.Owns :=
  fun id n h => wf.own id.val n h

/-- A graph that some operations on an empty assembly give, failed ones included. -/
def Assembled (g : Graph) : Prop :=
  ∃ first ops, g = ((Assembly.empty first).performAll ops).build

theorem Assembled.owns (h : g.Assembled) : g.Owns := by
  obtain ⟨first, ops, rfl⟩ := h
  exact build_owns (Assembly.performAll_wellFormed first ops)

theorem Owns.node? (h : g.Owns) (hn : g.node? id = some n) : g.node? n.id = some n := by
  rw [h id n hn]
  exact hn

theorem adjacent_of_node (hn : g.node? id = some n) (d : Direction) :
    g.adjacent id d = .ok ((g.neighbour? id d).bind g.node?) := by
  have hrequire : g.require id = .ok () := by simp [require, hn]
  simp only [adjacent, hrequire]
  rfl

theorem neighbour?_of_adjacent (h : g.adjacent id d = .ok (some n)) :
    ∃ y, g.neighbour? id d = some y ∧ g.node? y = some n := by
  cases hrequire : g.require id with
  | error e =>
    simp only [adjacent, hrequire] at h
    cases h
  | ok u =>
    simp only [adjacent, hrequire] at h
    have hbind : (g.neighbour? id d).bind g.node? = some n := Except.ok.inj h
    exact Option.bind_eq_some_iff.mp hbind

theorem node?_of_sample {k : Nat} {positions : List Nat} {nodes : List Node}
    (h : g.sample k positions = .ok nodes) (hn : n ∈ nodes) : ∃ id, g.node? id = some n := by
  simp only [sample] at h
  split at h
  · cases h
  · cases h
    obtain ⟨i, -, hi⟩ := List.mem_filterMap.mp hn
    obtain ⟨id, -, hnode⟩ := Option.bind_eq_some_iff.mp hi
    exact ⟨id, hnode⟩

theorem length_le_nodeCount {ids : List NodeId} (distinct : ids.Nodup)
    (known : ∀ id ∈ ids, (g.node? id).isSome = true) : ids.length ≤ g.nodeCount := by
  have hvals : (ids.map NodeId.val).Nodup := by
    apply List.Nodup.map _ distinct
    rintro ⟨x⟩ ⟨y⟩ rfl
    rfl
  have hkeys : ids.map NodeId.val ⊆ g.nodes.keys := by
    intro k hk
    obtain ⟨id, hid, rfl⟩ := List.mem_map.mp hk
    exact Std.TreeMap.mem_keys.mpr (Std.TreeMap.isSome_getElem?_iff_mem.mp (known id hid))
  calc
    ids.length = (ids.map NodeId.val).length := (List.length_map _).symm
    _ ≤ g.nodes.keys.length := (List.subperm_of_subset hvals hkeys).length_le
    _ = g.nodeCount := Std.TreeMap.length_keys

theorem exists_node? {a : Assembly} (known : a.has id = true) : ∃ n, a.build.node? id = some n :=
  Option.isSome_iff_exists.mp
    (Std.TreeMap.isSome_getElem?_iff_mem.mpr ((Assembly.has_iff id).mp known))

theorem node?_of_position {a : Assembly} (wf : a.WellFormed) {i : Nat} (h : i < a.order.size) :
    ∃ n, a.build.order[i]?.bind a.build.node? = some n ∧ a.build.node? n.id = some n := by
  have hat : a.build.order[i]? = some a.order[i] := Array.getElem?_eq_getElem h
  obtain ⟨n, hn⟩ := exists_node? ((wf.listed _).mp (Array.getElem_mem h))
  rw [hat]
  exact ⟨n, hn, (build_owns wf).node? hn⟩

theorem exists_known (inhabited : 0 < g.nodeCount) : ∃ id, (g.node? id).isSome = true := by
  have hsome : g.nodes.isEmpty = false := by
    rw [Std.TreeMap.isEmpty_eq_size_eq_zero]
    simp only [nodeCount] at inhabited
    simp only [beq_eq_false_iff_ne]
    omega
  obtain ⟨k, hk⟩ := Std.TreeMap.isEmpty_eq_false_iff_exists_mem.mp hsome
  exact ⟨⟨k⟩, Std.TreeMap.isSome_getElem?_iff_mem.mpr hk⟩

theorem Assembled.sample_one (h : g.Assembled) {choose : Chooser} (picks : choose.PicksOne)
    (t : Trace) (known : (g.node? id).isSome = true) :
    ∃ n, (g.store choose).sample t 1 = .ok [n] ∧ g.node? n.id = some n := by
  obtain ⟨first, ops, rfl⟩ := h
  have wf := Assembly.performAll_wellFormed first ops
  generalize (Assembly.empty first).performAll ops = a at *
  have hmem : id ∈ a.order :=
    (wf.listed id).mpr (Std.TreeMap.isSome_getElem?_iff_mem.mp known)
  have hsize : 1 ≤ a.order.size := Array.size_pos_of_mem hmem
  obtain ⟨i, hi, hbound⟩ := picks t a.order.size hsize
  obtain ⟨n, hn, own⟩ := node?_of_position wf hbound
  have hnot : ¬ a.build.order.size < 1 := Nat.not_lt.mpr hsize
  refine ⟨n, ?_, own⟩
  change a.build.sample 1 (choose t a.order.size 1) = _
  simp only [hi, sample, if_neg hnot]
  simp [hn]

theorem Assembled.sample_none (h : g.Assembled) (vacant : g.nodeCount = 0) (choose : Chooser)
    (t : Trace) : (g.store choose).sample t 1 = .error (.insufficientNodes 1 0) := by
  obtain ⟨first, ops, rfl⟩ := h
  have wf := Assembly.performAll_wellFormed first ops
  generalize (Assembly.empty first).performAll ops = a at *
  have hempty : a.nodes.isEmpty = true := by
    rw [Std.TreeMap.isEmpty_eq_size_eq_zero]
    exact beq_iff_eq.mpr vacant
  have horder : a.order.size = 0 := by
    by_contra hsize
    obtain ⟨id, hid⟩ := Array.exists_mem_of_size_pos (Nat.pos_of_ne_zero hsize)
    have hhas := (wf.listed id).mp hid
    exact Std.TreeMap.isEmpty_iff_forall_not_mem.mp hempty id.val hhas
  change a.build.sample 1 _ = _
  have hbuild : a.build.order.size = 0 := horder
  simp [sample, hbuild]

theorem similar_of_node (hn : g.node? id = some n) : ∃ nodes, g.similar id = .ok nodes := by
  have hrequire : g.require id = .ok () := by simp [require, hn]
  simp only [similar, hrequire]
  exact ⟨_, rfl⟩

end Graph

end QuestionSynthesis
