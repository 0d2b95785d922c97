import Mathlib.Data.List.Induction
import QuestionSynthesis.Corpus.Assembly

/-!
# What an assembly can hold

Every operation on an assembly adds one node or adds relationships, whether it succeeds or not
(`perform_cases`). What all assemblies have in common is derived from that alone: nodes are stored
under their own identifiers and all of them are listed (`WellFormed`), and none is ever lost.
-/

namespace QuestionSynthesis

def Relationship.step (r : Relationship) : NodeId × String × NodeId := (r.src, r.label, r.dst)

namespace Assembly

def empty (first : Nat) : Assembly := { nextId := first }

theorem new_eq_empty : new = empty 1 := rfl

theorem zeroBased_eq_empty : zeroBased = empty 0 := rfl

variable {a b c : Assembly} {more rest : List Relationship}

def edge (a : Assembly) (src dst : NodeId) (label : String) (properties : Properties) :
    Relationship :=
  { id := ⟨a.relationships.size + 1⟩, src, dst, label, properties }

def relating (a : Assembly) (more : List Relationship) : Assembly :=
  { a with relationships := a.relationships ++ more }

@[simp] theorem relating_has (id : NodeId) : (a.relating more).has id = a.has id := rfl

@[simp] theorem relating_relationships :
    (a.relating more).relationships.toList = a.relationships.toList ++ more := by
  simp [relating]

@[simp] theorem relating_relating :
    (a.relating more).relating rest = a.relating (more ++ rest) := by
  have hlist : a.relationships ++ more ++ rest = a.relationships ++ (more ++ rest) := by
    apply Array.toList_inj.mp
    simp
  simp only [relating, hlist]

/-- An assembly with relationships added to it, all of them between its nodes. -/
def Extends (a b : Assembly) (more : List Relationship) : Prop :=
  b = a.relating more ∧ ∀ r ∈ more, a.has r.src = true ∧ a.has r.dst = true

theorem Extends.refl (a : Assembly) : a.Extends a [] := by
  simp [Extends, relating]

theorem Extends.trans (h : a.Extends b more) (h' : b.Extends c rest) :
    a.Extends c (more ++ rest) := by
  obtain ⟨rfl, hmore⟩ := h
  obtain ⟨rfl, hrest⟩ := h'
  refine ⟨relating_relating, ?_⟩
  intro r hr
  rcases List.mem_append.mp hr with hr | hr
  · exact hmore r hr
  · simpa using hrest r hr

section

variable {x y : NodeId}

theorem relate_ok (hx : a.has x = true) (hy : a.has y = true) (label : String)
    (properties : Properties) :
    a.relate x y label properties =
      (.ok ⟨a.relationships.size + 1⟩, a.relating [a.edge x y label properties]) := by
  simp only [relate, hx, hy, relating, edge]
  simp

def fault (a : Assembly) (x y : NodeId) : Error :=
  if a.has x then .unknownTarget y else .unknownSource x

theorem relate_refused (h : ¬ (a.has x = true ∧ a.has y = true)) (label : String)
    (properties : Properties) : a.relate x y label properties = (.error (a.fault x y), a) := by
  by_cases hx : a.has x = true
  · have hy : a.has y = false := by simpa [hx] using h
    simp [relate, fault, hx, hy]
  · simp [relate, fault, hx]

def edgesBoth (a : Assembly) (x y : NodeId) (out back : String) (properties : Properties) :
    List Relationship :=
  [a.edge x y out properties, (a.relating [a.edge x y out properties]).edge y x back properties]

theorem relateBoth_ok (hx : a.has x = true) (hy : a.has y = true) (out back : String)
    (properties : Properties) :
    a.relateBoth x y out back properties =
      (.ok (), a.relating (a.edgesBoth x y out back properties)) := by
  have hback := relate_ok (a := a.relating [a.edge x y out properties]) hy hx back properties
  simp only [relateBoth, relate_ok hx hy, hback, relating_relating]
  rfl

theorem relateBoth_refused (h : ¬ (a.has x = true ∧ a.has y = true)) (out back : String)
    (properties : Properties) :
    a.relateBoth x y out back properties = (.error (a.fault x y), a) := by
  simp only [relateBoth, relate_refused h]

theorem extends_edgesBoth (hx : a.has x = true) (hy : a.has y = true) (out back : String)
    (properties : Properties) :
    a.Extends (a.relating (a.edgesBoth x y out back properties))
      (a.edgesBoth x y out back properties) := by
  refine ⟨rfl, ?_⟩
  intro r hr
  simp only [edgesBoth, List.mem_cons, List.not_mem_nil, or_false] at hr
  rcases hr with rfl | rfl
  · exact ⟨hx, hy⟩
  · exact ⟨hy, hx⟩

end

def chainSteps : List NodeId → List (NodeId × String × NodeId)
  | x :: y :: r =>
    (x, Direction.next.label, y) :: (y, Direction.prev.label, x) :: chainSteps (y :: r)
  | _ => []

/-- A chain that fails keeps the links that it has made; one that succeeds has all of them. -/
theorem linkSequence_extends (a : Assembly) (chunks : List NodeId) :
    ∃ more, a.Extends (a.linkSequence chunks).2 more ∧
      ((a.linkSequence chunks).1 = .ok () → more.map Relationship.step = chainSteps chunks) := by
  induction chunks generalizing a with
  | nil => exact ⟨[], .refl a, fun _ => rfl⟩
  | cons x r ih =>
    cases r with
    | nil => exact ⟨[], .refl a, fun _ => rfl⟩
    | cons y r =>
      by_cases hxy : a.has x = true ∧ a.has y = true
      · obtain ⟨hx, hy⟩ := hxy
        have h := extends_edgesBoth hx hy Direction.next.label Direction.prev.label []
        obtain ⟨rest, hrest, hsteps⟩ := ih (a.relating (a.edgesBoth x y _ _ []))
        rw [linkSequence, relateBoth_ok hx hy]
        refine ⟨_, h.trans hrest, ?_⟩
        intro hok
        rw [List.map_append, hsteps hok]
        rfl
      · rw [linkSequence, relateBoth_refused hxy]
        exact ⟨[], .refl a, fun h => by cases h⟩

theorem linkSimilar_extends (a : Assembly) (x y : NodeId) (score : Binary64) :
    ∃ more, a.Extends (a.linkSimilar x y score).2 more ∧ ∀ r ∈ more, r.label = similarLabel := by
  by_cases hxy : a.has x = true ∧ a.has y = true
  · rw [linkSimilar, relateBoth_ok hxy.1 hxy.2]
    exact ⟨_, extends_edgesBoth hxy.1 hxy.2 .., by simp [edgesBoth, edge]⟩
  · rw [linkSimilar, relateBoth_refused hxy]
    exact ⟨[], .refl a, by simp⟩

theorem relate_extends (a : Assembly) (x y : NodeId) (label : String) (properties : Properties) :
    ∃ more, a.Extends (a.relate x y label properties).2 more ∧ ∀ r ∈ more, r.label = label := by
  by_cases hxy : a.has x = true ∧ a.has y = true
  · rw [relate_ok hxy.1 hxy.2]
    refine ⟨[a.edge x y label properties], ⟨rfl, ?_⟩, by simp [edge]⟩
    simpa [edge] using hxy
  · rw [relate_refused hxy]
    exact ⟨[], .refl a, by simp⟩

theorem perform_cases (a : Assembly) (op : Operation) :
    (∃ n, (a.perform op).2 = (a.addNode n).2) ∨ ∃ more, a.Extends (a.perform op).2 more := by
  cases op with
  | addNode n => exact .inl ⟨n, rfl⟩
  | addChunk docId content => exact .inl ⟨{ id := ⟨0⟩, docId, content }, rfl⟩
  | relate src dst label properties =>
    obtain ⟨more, h, -⟩ := a.relate_extends src dst label properties
    exact .inr ⟨more, h⟩
  | linkSequence chunks =>
    obtain ⟨more, h, -⟩ := a.linkSequence_extends chunks
    exact .inr ⟨more, h⟩
  | linkSimilar x y score =>
    obtain ⟨more, h, -⟩ := a.linkSimilar_extends x y score
    exact .inr ⟨more, h⟩

theorem performAll_snoc (a : Assembly) (ops : List Operation) (op : Operation) :
    a.performAll (ops ++ [op]) = ((a.performAll ops).perform op).2 := by
  simp [performAll]

theorem has_iff (id : NodeId) : a.has id = true ↔ id.val ∈ a.nodes := Iff.rfl

theorem has_addNode (n : Node) (id : NodeId) :
    (a.addNode n).2.has id = true ↔ id.val = a.nextId ∨ a.has id = true := by
  simp only [has_iff, addNode, Std.TreeMap.mem_insert, Std.LawfulEqCmp.compare_eq_iff_eq]
  rw [eq_comm]

theorem has_perform {id : NodeId} (h : a.has id = true) (op : Operation) :
    (a.perform op).2.has id = true := by
  obtain ⟨n, hn⟩ | ⟨more, hmore, -⟩ := a.perform_cases op
  · rw [hn]
    exact (has_addNode n id).mpr (.inr h)
  · rw [hmore]
    exact h

structure WellFormed (a : Assembly) : Prop where
  own : ∀ (k : Nat) (n : Node), a.nodes[k]? = some n → n.id = ⟨k⟩
  listed : ∀ id, id ∈ a.order ↔ a.has id = true

theorem empty_wellFormed (first : Nat) : (empty first).WellFormed where
  own k n h := by simp [empty] at h
  listed id := by simp [empty, has]

theorem WellFormed.perform (h : a.WellFormed) (op : Operation) : (a.perform op).2.WellFormed := by
  obtain ⟨n, hn⟩ | ⟨more, hmore, -⟩ := a.perform_cases op
  · rw [hn]
    constructor
    case own =>
      intro k m hm
      simp only [addNode, Std.TreeMap.getElem?_insert, Std.LawfulEqCmp.compare_eq_iff_eq] at hm
      split at hm
      · next hk =>
        cases hm
        exact congrArg NodeId.mk hk
      · exact h.own k m hm
    case listed =>
      intro id
      rw [has_addNode]
      simp only [addNode, Array.mem_push, h.listed id]
      have hid : id = ⟨a.nextId⟩ ↔ id.val = a.nextId := by
        cases id
        simp
      rw [hid, or_comm]
  · rw [hmore]
    exact ⟨h.own, h.listed⟩

theorem performAll_wellFormed (first : Nat) (ops : List Operation) :
    ((empty first).performAll ops).WellFormed := by
  induction ops using List.reverseRecOn with
  | nil => exact empty_wellFormed first
  | append_singleton ops op ih =>
    rw [performAll_snoc]
    exact ih.perform op

end Assembly

end QuestionSynthesis
