import QuestionSynthesis.Proofs.Corpus.Ranking
import QuestionSynthesis.Proofs.Corpus.Sequences

/-!
# What neighbours depend on

A neighbour is found by a scan of the steps that the edges take (`neighbour?_build`), and of these
only the steps of reading order count (`beyond_readingSteps`). A step that is taken again, later,
changes no first match, so edges that repeat others change no neighbour (`beyond_append`).
-/

namespace QuestionSynthesis

/-- The node beyond another one, by the first step that leads there or else by the first one that
comes back from there. -/
def beyond (steps : List (NodeId × String × NodeId)) (x : NodeId) (d : Direction) :
    Option NodeId :=
  ((steps.find? fun s => s.1 = x ∧ s.2.1 = d.label).map fun s => s.2.2).or
    ((steps.find? fun s => s.2.2 = x ∧ s.2.1 = d.opposite.label).map fun s => s.1)

def readingSteps (edges : List Relationship) : List (NodeId × String × NodeId) :=
  (edges.filter fun r => r.label = "PREV" ∨ r.label = "NEXT").map Relationship.step

theorem find?_append_of_repeats {α : Type} {p : α → Bool} {l more : List α}
    (repeats : ∀ b ∈ more, b ∈ l) : (l ++ more).find? p = l.find? p := by
  rw [List.find?_append]
  cases found : l.find? p with
  | some a => rfl
  | none =>
    -- what the scan would find later it has passed already
    have later : more.find? p = none :=
      List.find?_eq_none.mpr fun b hb => List.find?_eq_none.mp found b (repeats b hb)
    rw [later, Option.or_none]

section

variable {steps more : List (NodeId × String × NodeId)} {x : NodeId} {d : Direction}

theorem beyond_append (repeats : ∀ s ∈ more, s ∈ steps) :
    beyond (steps ++ more) x d = beyond steps x d := by
  simp only [beyond, find?_append_of_repeats repeats]

theorem Direction.label_cases (d : Direction) : d.label = "PREV" ∨ d.label = "NEXT" := by
  cases d with
  | prev => exact .inl rfl
  | next => exact .inr rfl

theorem find?_readingSteps {p : NodeId × String × NodeId → Bool} (edges : List Relationship)
    (reading : ∀ s, p s = true → s.2.1 = "PREV" ∨ s.2.1 = "NEXT") :
    (readingSteps edges).find? p = (edges.map Relationship.step).find? p := by
  rw [readingSteps, List.find?_map, List.find?_map, List.find?_filter]
  congr 2
  funext r
  rw [Bool.eq_iff_iff, decide_eq_true_iff, Function.comp_apply, and_iff_right_iff_imp]
  exact fun hp => decide_eq_true (reading r.step hp)

theorem beyond_readingSteps (edges : List Relationship) (x : NodeId) (d : Direction) :
    beyond (readingSteps edges) x d = beyond (edges.map Relationship.step) x d := by
  have ahead : ∀ s : NodeId × String × NodeId, decide (s.1 = x ∧ s.2.1 = d.label) = true →
      s.2.1 = "PREV" ∨ s.2.1 = "NEXT" := by
    intro s hs
    rw [(of_decide_eq_true hs).2]
    exact d.label_cases
  have back : ∀ s : NodeId × String × NodeId,
      decide (s.2.2 = x ∧ s.2.1 = d.opposite.label) = true →
      s.2.1 = "PREV" ∨ s.2.1 = "NEXT" := by
    intro s hs
    rw [(of_decide_eq_true hs).2]
    exact d.opposite.label_cases
  simp only [beyond, find?_readingSteps edges ahead, find?_readingSteps edges back]

end

theorem beyond_steps (edges : List Relationship) (x : NodeId) (d : Direction) :
    beyond (edges.map Relationship.step) x d =
      ((edges.find? fun r => r.src = x ∧ r.label = d.label).map Relationship.dst).or
        ((edges.find? fun r => r.dst = x ∧ r.label = d.opposite.label).map Relationship.src) := by
  simp only [beyond, List.find?_map, Option.map_map]
  rfl

namespace Graph

variable {g g' : Graph} {x : NodeId} {d : Direction}

theorem neighbour?_build (a : Assembly) (x : NodeId) (d : Direction) :
    a.build.neighbour? x d = beyond a.steps x d := by
  rw [a.neighbour?_scan, Assembly.steps, beyond_steps]

theorem require_congr (nodes : ∀ id, g.node? id = g'.node? id) (x : NodeId) :
    g.require x = g'.require x := by
  rw [require, require, nodes x]

theorem adjacent_congr (nodes : ∀ id, g.node? id = g'.node? id)
    (neighbour : g.neighbour? x d = g'.neighbour? x d) : g.adjacent x d = g'.adjacent x d := by
  rw [adjacent, adjacent, require_congr nodes, neighbour, funext nodes]

theorem sample_congr (nodes : ∀ id, g.node? id = g'.node? id) (order : g.order = g'.order) :
    g.sample = g'.sample := by
  funext k positions
  rw [sample, sample, order, funext nodes]

theorem similar_congr (nodes : ∀ id, g.node? id = g'.node? id)
    (links : ((g.edgesFrom x).filter (·.hasLabel similarLabel)).map (fun r => (r.score?, r.dst)) =
      ((g'.edgesFrom x).filter (·.hasLabel similarLabel)).map fun r => (r.score?, r.dst)) :
    g.similar x = g'.similar x := by
  simp only [similar, require_congr nodes, links, funext nodes]

end Graph

namespace Assembly

variable {a b : Assembly} {first first' : Nat} {ops ops' : List Operation} {x : NodeId}

theorem Records.node?_congr (h : a.Records first ops) (h' : b.Records first' ops')
    (nodes : added first ops = added first' ops') (id : NodeId) :
    a.build.node? id = b.build.node? id := by
  apply Option.ext
  intro n
  exact (h.nodes id n).trans (nodes ▸ (h'.nodes id n).symm)

theorem Records.order_congr (h : a.Records first ops) (h' : b.Records first' ops')
    (nodes : added first ops = added first' ops') : a.order = b.order := by
  rw [← Array.toList_inj, h.order, h'.order, nodes]

theorem Records.neighbour?_congr (h : a.Records first ops) (h' : b.Records first' ops')
    (steps : readingSteps (accepted first ops) = readingSteps (accepted first' ops'))
    (x : NodeId) (d : Direction) : a.build.neighbour? x d = b.build.neighbour? x d := by
  rw [Graph.neighbour?_build, Graph.neighbour?_build, Assembly.steps, Assembly.steps,
    h.relationships, h'.relationships, ← beyond_readingSteps, steps, beyond_readingSteps]

end Assembly

namespace Assembly

variable {a : Assembly} {links : List Link} {x : NodeId} {d : Direction}

def Link.step (l : Link) : NodeId × String × NodeId := (l.src, l.label, l.dst)

theorem linking_steps (a : Assembly) (links : List Link) :
    (a.linking links).steps = a.steps ++ links.map Link.step := by
  rw [steps, linking, relating_relationships, List.map_append, Link.numberedFrom, List.map_map]
  refine congrArg (a.steps ++ ·) ?_
  calc
    _ = (links.zipIdx (a.relationships.size + 1)).map (Link.step ∘ Prod.fst) := rfl
    _ = links.map Link.step := by rw [← List.map_map, List.zipIdx_map_fst]

theorem adjacent_linking (repeats : ∀ l ∈ links, l.step ∈ a.steps) (x : NodeId) (d : Direction) :
    (a.linking links).build.adjacent x d = a.build.adjacent x d := by
  refine Graph.adjacent_congr (fun _ => rfl) ?_
  rw [Graph.neighbour?_build, Graph.neighbour?_build, linking_steps]
  exact beyond_append (List.forall_mem_map.mpr repeats)

/-- Linking a sequence once more adds all its edges once more and changes no neighbour, and neither
does any other edge with the ends and the label of one that is there. -/
theorem relinking_keeps_neighbours (a : Assembly) :
    (∀ chunks,
      let once := (a.linkSequence chunks).2
      ((∀ id ∈ chunks, a.has id = true) →
        once.linkSequence chunks = (.ok (), once.linking (Link.pairs chunks))) ∧
      ∀ x d, (once.linkSequence chunks).2.build.adjacent x d = once.build.adjacent x d) ∧
    ∀ r ∈ a.relationships, ∀ properties x d,
      (a.relate r.src r.dst r.label properties).2.build.adjacent x d = a.build.adjacent x d := by
  refine ⟨fun chunks => ⟨fun known => ?succeeds, fun x d => ?again⟩, fun r hr properties x d => ?edge⟩
  case succeeds =>
    rw [linkSequence_links]
    exact linkSequence_of_known known
  case again =>
    -- the second call stops where the first one did, as both know the same chunks
    have once : (a.linkSequence chunks).2.accepts = a.accepts := by
      rw [linkSequence_links]
      rfl
    rw [linkSequence_links (a.linkSequence chunks).2, once]
    refine adjacent_linking (fun l hl => ?_) x d
    rw [linkSequence_links, linking_steps]
    exact List.mem_append_right _ (List.mem_map_of_mem hl)
  case edge =>
    rw [relate_links]
    refine adjacent_linking (fun l hl => ?_) x d
    obtain rfl := List.mem_singleton.mp ((List.takeWhile_sublist _).subset hl)
    exact List.mem_map.mpr ⟨r, Array.mem_toList_iff.mpr hr, rfl⟩

/-- A chunk that a sequence passes twice, over another sequence and an edge without its way back. -/
def tangledOperations : List Operation :=
  [.addChunk "row" "one", .addChunk "row" "two", .addChunk "row" "three",
    .relate ⟨3⟩ ⟨1⟩ "NEXT" [], .linkSequence [⟨2⟩, ⟨3⟩]]

theorem relinking_keeps_neighbours_tangled :
    let a := (empty 1).performAll tangledOperations
    let once := (a.linkSequence [⟨1⟩, ⟨2⟩, ⟨1⟩, ⟨3⟩]).2
    (once.linkSequence [⟨1⟩, ⟨2⟩, ⟨1⟩, ⟨3⟩]).1 = .ok () ∧
      (∀ x d, (once.linkSequence [⟨1⟩, ⟨2⟩, ⟨1⟩, ⟨3⟩]).2.build.adjacent x d =
        once.build.adjacent x d) ∧
      ∀ properties x d, (a.relate ⟨3⟩ ⟨1⟩ "NEXT" properties).2.build.adjacent x d =
        a.build.adjacent x d := by
  intro a once
  obtain ⟨sequences, edges⟩ := relinking_keeps_neighbours a
  obtain ⟨succeeds, again⟩ := sequences [⟨1⟩, ⟨2⟩, ⟨1⟩, ⟨3⟩]
  have known : ∀ id ∈ [(⟨1⟩ : NodeId), ⟨2⟩, ⟨1⟩, ⟨3⟩], a.has id = true := by decide +kernel
  have taken : a.relationships.toList.any (fun r => r.step = (⟨3⟩, "NEXT", ⟨1⟩)) = true := by
    decide +kernel
  obtain ⟨r, hr, hstep⟩ := List.any_eq_true.mp taken
  have edge := edges r (Array.mem_toList_iff.mp hr)
  simp only [Relationship.step, decide_eq_true_eq, Prod.mk.injEq] at hstep
  rw [hstep.1, hstep.2.1, hstep.2.2] at edge
  exact ⟨congrArg Prod.fst (succeeds known), again, edge⟩

end Assembly

end QuestionSynthesis
