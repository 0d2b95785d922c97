import Mathlib.Data.List.Induction
import QuestionSynthesis.Proofs.Corpus.Assembly

/-!
# What a history of operations leaves

An operation asks for a node or for links. A node is always added, under the next identifier. Of the
links that an operation asks for, those before the first one with an unknown end are granted
(`perform_links`). So an assembly holds the nodes that its history adds and the relationships that
its history is granted, each numbered in order, and nothing else (`performAll_records`).
-/

namespace QuestionSynthesis

namespace Assembly

variable {a : Assembly} {op : Operation} {n : Node} {first : Nat} {ops : List Operation}
  {id : NodeId}

structure Link where
  src : NodeId
  dst : NodeId
  label : String
  properties : Properties

def Link.numbered (l : Link) (id : Nat) : Relationship :=
  { id := ⟨id⟩, src := l.src, dst := l.dst, label := l.label, properties := l.properties }

def Link.numberedFrom (start : Nat) (links : List Link) : List Relationship :=
  (links.zipIdx start).map fun p => p.1.numbered p.2

theorem Link.numberedFrom_append (start : Nat) (links more : List Link) :
    numberedFrom start (links ++ more) =
      numberedFrom start links ++ numberedFrom (start + links.length) more := by
  simp [numberedFrom, List.zipIdx_append]

def accepts (a : Assembly) (l : Link) : Bool := a.has l.src && a.has l.dst

def linking (a : Assembly) (links : List Link) : Assembly :=
  a.relating (Link.numberedFrom (a.relationships.size + 1) links)

@[simp] theorem linking_nil : a.linking [] = a := by
  simp [linking, relating, Link.numberedFrom]

theorem linking_linking (links more : List Link) :
    (a.linking links).linking more = a.linking (links ++ more) := by
  have hsize : (a.linking links).relationships.size = a.relationships.size + links.length := by
    rw [← Array.length_toList, linking, relating_relationships]
    simp [Link.numberedFrom]
  simp only [linking] at hsize ⊢
  rw [hsize, relating_relating, Link.numberedFrom_append]
  congr 3
  omega

def Operation.node? : Operation → Option Node
  | .addNode n => some n
  | .addChunk docId content => some { id := ⟨0⟩, docId, content }
  | _ => none

def Link.both (x y : NodeId) (out back : String) (properties : Properties) : List Link :=
  [⟨x, y, out, properties⟩, ⟨y, x, back, properties⟩]

theorem relating_edgesBoth (a : Assembly) (x y : NodeId) (out back : String)
    (properties : Properties) :
    a.relating (a.edgesBoth x y out back properties) =
      a.linking (Link.both x y out back properties) := by
  have hsize : ∀ e, (a.relating [e]).relationships.size = a.relationships.size + 1 := by
    intro e
    rw [← Array.length_toList, relating_relationships]
    simp
  simp [linking, Link.both, Link.numberedFrom, Link.numbered, edgesBoth, edge, hsize]

def Link.chain : List NodeId → List Link
  | x :: y :: r =>
    both x y Direction.next.label Direction.prev.label [] ++ chain (y :: r)
  | _ => []

def Operation.links : Operation → List Link
  | .relate src dst label properties => [⟨src, dst, label, properties⟩]
  | .linkSequence chunks => Link.chain chunks
  | .linkSimilar x y score =>
    Link.both x y similarLabel similarLabel [(scoreProperty, .double score)]
  | _ => []

theorem perform_of_node (h : op.node? = some n) :
    a.perform op = (.ok (.node ⟨a.nextId⟩), (a.addNode n).2) := by
  cases op with
  | addNode m => cases h; rfl
  | addChunk docId content => cases h; rfl
  | _ => cases h

theorem takeWhile_both {x y : NodeId} (known : a.has x = true ∧ a.has y = true) (out back : String)
    (properties : Properties) (more : List Link) :
    (Link.both x y out back properties ++ more).takeWhile a.accepts =
      Link.both x y out back properties ++ more.takeWhile a.accepts := by
  simp [Link.both, accepts, known]

theorem takeWhile_both_of_unknown {x y : NodeId} (unknown : ¬ (a.has x = true ∧ a.has y = true))
    (out back : String) (properties : Properties) (more : List Link) :
    (Link.both x y out back properties ++ more).takeWhile a.accepts = [] := by
  have hrefused : a.accepts ⟨x, y, out, properties⟩ = false := by
    simpa [accepts] using unknown
  simp [Link.both, hrefused]

theorem relate_links (a : Assembly) (x y : NodeId) (label : String) (properties : Properties) :
    (a.relate x y label properties).2 =
      a.linking ([⟨x, y, label, properties⟩].takeWhile a.accepts) := by
  by_cases known : a.has x = true ∧ a.has y = true
  · rw [relate_ok known.1 known.2]
    have haccepted : a.accepts ⟨x, y, label, properties⟩ = true := by simp [accepts, known]
    rw [List.takeWhile_cons, haccepted]
    rfl
  · have hrefused : a.accepts ⟨x, y, label, properties⟩ = false := by
      simpa [accepts] using known
    rw [relate_refused known, List.takeWhile_cons, hrefused]
    exact linking_nil.symm

theorem relateBoth_links (a : Assembly) (x y : NodeId) (out back : String)
    (properties : Properties) :
    (a.relateBoth x y out back properties).2 =
      a.linking ((Link.both x y out back properties).takeWhile a.accepts) := by
  rw [← List.append_nil (Link.both x y out back properties)]
  by_cases known : a.has x = true ∧ a.has y = true
  · rw [relateBoth_ok known.1 known.2, takeWhile_both known, relating_edgesBoth]
    rfl
  · rw [relateBoth_refused known, takeWhile_both_of_unknown known, linking_nil]

theorem linkSequence_links (a : Assembly) (chunks : List NodeId) :
    (a.linkSequence chunks).2 = a.linking ((Link.chain chunks).takeWhile a.accepts) := by
  induction chunks generalizing a with
  | nil => exact linking_nil.symm
  | cons x r ih =>
    cases r with
    | nil => exact linking_nil.symm
    | cons y r =>
      rw [linkSequence, Link.chain]
      by_cases known : a.has x = true ∧ a.has y = true
      · rw [relateBoth_ok known.1 known.2, takeWhile_both known, ← linking_linking,
          relating_edgesBoth]
        exact ih _
      · rw [relateBoth_refused known, takeWhile_both_of_unknown known, linking_nil]

theorem perform_links (h : op.node? = none) :
    (a.perform op).2 = a.linking (op.links.takeWhile a.accepts) := by
  cases op with
  | addNode m => cases h
  | addChunk docId content => cases h
  | relate src dst label properties => exact a.relate_links src dst label properties
  | linkSequence chunks => exact a.linkSequence_links chunks
  | linkSimilar x y score => exact a.relateBoth_links x y _ _ _

theorem relate_of_error {src dst : NodeId} {label : String} {properties : Properties} {e : Error}
    (h : (a.relate src dst label properties).1 = .error e) :
    (a.relate src dst label properties).2 = a := by
  by_cases known : a.has src = true ∧ a.has dst = true
  · rw [relate_ok known.1 known.2] at h
    cases h
  · rw [relate_refused known]

def added (first : Nat) (ops : List Operation) : List Node :=
  (ops.filterMap Operation.node?).mapIdx fun i n => { n with id := ⟨first + i⟩ }

def Link.joins (l : Link) (first count : Nat) : Bool :=
  (first ≤ l.src.val && l.src.val < first + count) &&
    (first ≤ l.dst.val && l.dst.val < first + count)

/-- The links that operations are granted when so many nodes are there already. -/
def granted (first : Nat) : (count : Nat) → List Operation → List Link
  | _, [] => []
  | count, op :: ops =>
    op.links.takeWhile (fun l => l.joins first count) ++
      granted first (count + op.node?.toList.length) ops

/-- The relationships that operations on an empty assembly are granted, numbered from `1` on. -/
def accepted (first : Nat) (ops : List Operation) : List Relationship :=
  Link.numberedFrom 1 (granted first 0 ops)

theorem added_append (first : Nat) (ops more : List Operation) :
    added first (ops ++ more) =
      added first ops ++ added (first + (added first ops).length) more := by
  have hshift : ∀ i, first + (i + (ops.filterMap Operation.node?).length) =
      first + (ops.filterMap Operation.node?).length + i := by
    intro i
    omega
  simp [added, List.mapIdx_append, hshift]

theorem added_snoc (first : Nat) (ops : List Operation) (op : Operation) :
    added first (ops ++ [op]) = added first ops ++
      op.node?.toList.map fun n => { n with id := ⟨first + (added first ops).length⟩ } := by
  rw [added_append]
  cases h : op.node? with
  | none => simp [added, h]
  | some n => simp [added, h]

theorem granted_snoc (first count : Nat) (ops : List Operation) (op : Operation) :
    granted first count (ops ++ [op]) = granted first count ops ++
      op.links.takeWhile (fun l => l.joins first (count + (added first ops).length)) := by
  induction ops generalizing count with
  | nil => simp [granted, added]
  | cons op' ops ih =>
    rw [List.cons_append, granted, ih, granted, List.append_assoc]
    congr 3
    funext l
    have hcount : count + op'.node?.toList.length + (added first ops).length =
        count + (added first (op' :: ops)).length := by
      cases h : op'.node? with
      | none => simp [added, h]
      | some n =>
        simp [added, h]
        omega
    rw [hcount]

theorem added_ids (first : Nat) (ops : List Operation) :
    (added first ops).map (fun n => n.id.val) = List.range' first (added first ops).length := by
  apply List.ext_getElem
  · simp
  · intro i h _
    simp [added]

theorem mem_added_ids :
    (∃ n ∈ added first ops, n.id = id) ↔
      first ≤ id.val ∧ id.val < first + (added first ops).length := by
  rw [← List.mem_range'_1, ← added_ids, List.mem_map]
  constructor
  · rintro ⟨n, hn, rfl⟩
    exact ⟨n, hn, rfl⟩
  · rintro ⟨n, hn, hid⟩
    exact ⟨n, hn, congrArg NodeId.mk hid⟩

structure Records (a : Assembly) (first : Nat) (ops : List Operation) : Prop where
  nextId : a.nextId = first + (added first ops).length
  nodes : ∀ (id : NodeId) (n : Node), a.nodes[id.val]? = some n ↔ n ∈ added first ops ∧ n.id = id
  order : a.order.toList = (added first ops).map Node.id
  relationships : a.relationships.toList = accepted first ops

theorem empty_records (first : Nat) : (empty first).Records first [] := by
  constructor <;> simp [empty, added, accepted, granted, Link.numberedFrom]

theorem Records.has_iff (h : a.Records first ops) (id : NodeId) :
    a.has id = true ↔ ∃ n ∈ added first ops, n.id = id := by
  rw [Assembly.has_iff, ← Std.TreeMap.isSome_getElem?_iff_mem, Option.isSome_iff_exists]
  exact exists_congr fun n => h.nodes id n

theorem Records.accepts_eq (h : a.Records first ops) :
    a.accepts = fun l => l.joins first (added first ops).length := by
  funext l
  rw [Bool.eq_iff_iff, accepts, Bool.and_eq_true, h.has_iff, h.has_iff, mem_added_ids,
    mem_added_ids]
  simp [Link.joins]

theorem Records.unlisted (h : a.Records first ops) : a.nodes[a.nextId]? = none := by
  rw [Option.eq_none_iff_forall_ne_some]
  intro n hn
  have hbound := mem_added_ids.mp ⟨n, (h.nodes ⟨a.nextId⟩ n).mp hn⟩
  have hnext := h.nextId
  simp only at hbound
  omega

theorem Records.addNode (h : a.Records first ops) (hop : op.node? = some n) :
    (a.addNode n).2.Records first (ops ++ [op]) := by
  have hadded := added_snoc first ops op
  rw [hop, ← h.nextId] at hadded
  constructor
  case nextId =>
    rw [hadded]
    simp [Assembly.addNode, h.nextId, Nat.add_assoc]
  case nodes =>
    intro id m
    rw [hadded, List.mem_append, or_and_right, ← h.nodes id m]
    simp only [Assembly.addNode, Std.TreeMap.getElem?_insert, Std.LawfulEqCmp.compare_eq_iff_eq,
      Option.toList_some, List.map_cons, List.map_nil, List.mem_singleton]
    split
    · next hid =>
      obtain rfl : id = ⟨a.nextId⟩ := by rw [hid]
      rw [h.unlisted, Option.some.injEq]
      constructor
      · rintro rfl
        exact .inr ⟨rfl, rfl⟩
      · rintro (hold | ⟨rfl, -⟩)
        · cases hold
        · rfl
    · next hid =>
      refine (or_iff_left ?_).symm
      rintro ⟨rfl, rfl⟩
      exact hid rfl
  case order =>
    rw [hadded]
    simp [Assembly.addNode, h.order]
  case relationships =>
    rw [accepted, granted_snoc]
    cases op with
    | addNode m => exact h.relationships.trans (by simp [accepted, Operation.links])
    | addChunk docId content => exact h.relationships.trans (by simp [accepted, Operation.links])
    | _ => cases hop

theorem Records.linking (h : a.Records first ops) (hop : op.node? = none) :
    (a.linking (op.links.takeWhile a.accepts)).Records first (ops ++ [op]) := by
  have hadded := added_snoc first ops op
  rw [hop, Option.toList_none, List.map_nil, List.append_nil] at hadded
  have hsize : a.relationships.size = (granted first 0 ops).length := by
    rw [← Array.length_toList, h.relationships]
    simp [accepted, Link.numberedFrom]
  constructor
  case nextId =>
    rw [hadded]
    exact h.nextId
  case nodes =>
    rw [hadded]
    exact h.nodes
  case order =>
    rw [hadded]
    exact h.order
  case relationships =>
    rw [accepted, granted_snoc, Nat.zero_add, Link.numberedFrom_append, Assembly.linking,
      relating_relationships, h.relationships, h.accepts_eq, hsize, Nat.add_comm 1]
    rfl

theorem Records.perform (h : a.Records first ops) (op : Operation) :
    (a.perform op).2.Records first (ops ++ [op]) := by
  cases hop : op.node? with
  | some n =>
    rw [perform_of_node hop]
    exact h.addNode hop
  | none =>
    rw [perform_links hop]
    exact h.linking hop

theorem performAll_records (first : Nat) (ops : List Operation) :
    ((empty first).performAll ops).Records first ops := by
  induction ops using List.reverseRecOn with
  | nil => exact empty_records first
  | append_singleton ops op ih =>
    rw [performAll_snoc]
    exact ih.perform op

end Assembly

end QuestionSynthesis
