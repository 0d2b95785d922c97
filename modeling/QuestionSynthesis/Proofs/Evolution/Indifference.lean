import QuestionSynthesis.Evolution.SingleContext
import QuestionSynthesis.Proofs.Corpus.ReadingOrder
import QuestionSynthesis.Proofs.Dialogue.Calls

/-!
# What an evolution does not see

A question about one window comes from samples, neighbours and replies alone, so it takes the same
course with all collaborators that agree in these (`Session.Indifferent`). This passes from the
calls to a round, and from one round to the next. Graphs agree in them if they have the same nodes
and the same edges of reading order, wherever other edges stand in between.
-/

namespace QuestionSynthesis

structure Collaborators.Agree (w w' : Collaborators) : Prop where
  sample : w.store.sample = w'.store.sample
  adjacent : w.store.adjacent = w'.store.adjacent
  service : w.service = w'.service

namespace Session

variable {σ τ α β : Type}

/-- With collaborators that agree the session makes the same calls, gets the same answers and comes
to the same end. -/
def Indifferent (m : Session σ α) : Prop :=
  ∀ w w' : Collaborators, w.Agree w' → m w = m w'

namespace Indifferent

theorem of_silent {run : σ → Trace → Outcome α × σ × Trace} : Indifferent fun _ => run :=
  fun _ _ _ => rfl

theorem bind {m : Session σ α} {f : α → Session σ β} (hm : Indifferent m)
    (hf : ∀ a, Indifferent (f a)) : Indifferent (m >>= f) := by
  intro w w' agree
  funext s t
  have first : m w s t = m w' s t := by rw [hm w w' agree]
  rcases hr : m w s t with ⟨a | e | _, s', t'⟩
  · rw [bind_value hr, bind_value (first.symm.trans hr), hf a w w' agree]
  · rw [bind_error hr, bind_error (first.symm.trans hr)]
  · rw [bind_unfinished hr, bind_unfinished (first.symm.trans hr)]

theorem within (s : τ) {m : Session τ α} (hm : Indifferent m) :
    Indifferent (within s m : Session σ α) := by
  intro w w' agree
  funext s' t
  rw [within_run, within_run, hm w w' agree]

theorem sampleOne : Indifferent (sampleOne : Session σ Node) := by
  intro w w' agree
  funext s t
  rw [sampleOne_run, sampleOne_run, agree.sample]

theorem adjacent (id : NodeId) (d : Direction) :
    Indifferent (adjacent id d : Session σ (Option Node)) := by
  intro w w' agree
  funext s t
  simp only [Session.adjacent, agree.adjacent]

theorem generateText (prompt : String) : Indifferent (generateText prompt : Session σ String) := by
  intro w w' agree
  funext s t
  rw [generateText_run, generateText_run, agree.service]

end Indifferent

end Session

open Session (Indifferent)
open Session.Indifferent (of_silent)

namespace Attempt

theorem resample_indifferent : Indifferent resample :=
  .bind .sampleOne fun _ => .bind of_silent fun _ => .bind of_silent fun _ => of_silent

theorem rejectNode_indifferent : Indifferent rejectNode := by
  refine .bind of_silent fun a => .bind of_silent fun _ => ?_
  split
  · split <;> exact of_silent
  · exact of_silent

theorem rejectQuestion_indifferent : Indifferent rejectQuestion := by
  refine .bind of_silent fun a => .bind of_silent fun _ => ?_
  split <;> exact of_silent

theorem newNeighbour_indifferent (id : NodeId) (d : Direction) :
    Indifferent (newNeighbour id d) :=
  .bind (.adjacent id d) fun _ => .bind of_silent fun _ => of_silent

theorem expand_indifferent : Indifferent expand := by
  refine .bind of_silent fun a => .bind (newNeighbour_indifferent _ _) fun before => ?_
  cases before with
  | some n => exact .bind of_silent fun _ => of_silent
  | none =>
    refine .bind (newNeighbour_indifferent _ _) fun after => ?_
    cases after with
    | some n => exact .bind of_silent fun _ => of_silent
    | none => exact .bind resample_indifferent fun _ => of_silent

end Attempt

namespace Evolution

variable {σ : Type} {filter : NodeFilter}

theorem nodeFilter_indifferent (n : Node) :
    Indifferent (filter.evaluate n : Session σ NodeVerdict) :=
  .bind of_silent fun prompt => .bind (.generateText prompt) fun _ => of_silent

theorem questionFilter_indifferent (question : String) :
    Indifferent (QuestionFilter.evaluate question : Session σ Bool) :=
  .bind of_silent fun prompt => .bind (.generateText prompt) fun _ => of_silent

namespace SingleContext

theorem seed_indifferent : Indifferent seed :=
  .bind of_silent fun _ => .bind of_silent fun prompt => .generateText prompt

theorem isKept_indifferent (question : String) : Indifferent (isKept question) := by
  unfold isKept
  split
  · exact of_silent
  · exact questionFilter_indifferent question

theorem round_indifferent (filter : NodeFilter) : Indifferent (round filter) := by
  refine .bind of_silent fun a => .bind (nodeFilter_indifferent a.front) fun verdict => ?_
  split
  · refine .bind seed_indifferent fun question => .bind (isKept_indifferent question) fun kept => ?_
    split
    · exact .bind of_silent fun _ => of_silent
    · exact .bind Attempt.rejectQuestion_indifferent fun _ =>
        .bind Attempt.expand_indifferent fun _ => of_silent
  · exact .bind Attempt.rejectNode_indifferent fun _ =>
      .bind Attempt.resample_indifferent fun _ => of_silent

theorem loop_indifferent (filter : NodeFilter) (rounds : Nat) : Indifferent (loop filter rounds) := by
  induction rounds with
  | zero => exact of_silent
  | succ rounds ih =>
    refine .bind (round_indifferent filter) fun r => ?_
    cases r with
    | kept e => exact of_silent
    | again => exact ih

end SingleContext

theorem singleContext_indifferent (filter : NodeFilter) (settings : Settings) (rounds : Nat) :
    Indifferent (singleContext filter settings rounds : Session σ Evolved) :=
  .bind (.bind .sampleOne fun _ => of_silent) fun a =>
    .within a (SingleContext.loop_indifferent filter rounds)

open Assembly (Operation added accepted)
open Relationship (linksOf)

theorem agree_of_same_reading {first first' : Nat} {ops ops' : List Operation}
    (nodes : added first ops = added first' ops')
    (steps : readingSteps (accepted first ops) = readingSteps (accepted first' ops'))
    (choose : Chooser) (service : TextService) (clock : Trace → Timestamp) :
    Collaborators.Agree
      ⟨((Assembly.empty first).performAll ops).build.store choose, service, clock⟩
      ⟨((Assembly.empty first').performAll ops').build.store choose, service, clock⟩ := by
  have h := Assembly.performAll_records first ops
  have h' := Assembly.performAll_records first' ops'
  have same := h.node?_congr h' nodes
  have order : ((Assembly.empty first).performAll ops).build.order =
      ((Assembly.empty first').performAll ops').build.order := h.order_congr h' nodes
  constructor
  case sample =>
    funext t k
    simp only [Graph.store, Graph.sample_congr same order, order]
  case adjacent =>
    funext t id d
    exact Graph.adjacent_congr same (h.neighbour?_congr h' steps id d)
  case service => rfl

/-- Over two graphs with the same nodes and the same edges of reading order, questions about one
window take the same course, whatever other edges there are and wherever they stand. The chunks that
a node is similar to depend on the nodes and on the links of that node only. -/
theorem other_edges_unseen {σ : Type} (first first' : Nat) (ops ops' : List Operation)
    (nodes : added first ops = added first' ops') :
    let g := ((Assembly.empty first).performAll ops).build
    let g' := ((Assembly.empty first').performAll ops').build
    let edges := accepted first ops
    let edges' := accepted first' ops'
    (readingSteps edges = readingSteps edges' →
      ∀ choose service clock filter settings rounds (s : σ) t,
        singleContext filter settings rounds ⟨g.store choose, service, clock⟩ s t =
          singleContext filter settings rounds ⟨g'.store choose, service, clock⟩ s t) ∧
    ∀ x, (linksOf edges x).map (fun r => (r.score?, r.dst)) =
        (linksOf edges' x).map (fun r => (r.score?, r.dst)) →
      g.similar x = g'.similar x := by
  intro g g' edges edges'
  have h := Assembly.performAll_records first ops
  have h' := Assembly.performAll_records first' ops'
  refine ⟨fun steps choose service clock filter settings rounds s t => ?run, fun x links => ?similar⟩
  case run =>
    have agree := agree_of_same_reading nodes steps choose service clock
    rw [singleContext_indifferent filter settings rounds _ _ agree]
  case similar =>
    apply Graph.similar_congr (h.node?_congr h' nodes)
    rw [h.links_eq, h'.links_eq]
    exact links

def plainOperations : List Operation :=
  [.addChunk "row" "one", .addChunk "row" "two", .linkSequence [⟨1⟩, ⟨2⟩],
    .relate ⟨1⟩ ⟨2⟩ similarLabel [(scoreProperty, .int 1)]]

def crowdedOperations : List Operation :=
  [.addChunk "row" "one", .relate ⟨1⟩ ⟨1⟩ "CITES" [], .addChunk "row" "two",
    .relate ⟨1⟩ ⟨2⟩ similarLabel [(scoreProperty, .string "1")], .relate ⟨1⟩ ⟨2⟩ "NEXT" [],
    .relate ⟨2⟩ ⟨1⟩ similarLabel [], .relate ⟨2⟩ ⟨1⟩ "PREV" [("page", .int 2)],
    .relate ⟨2⟩ ⟨2⟩ "next" []]

theorem other_edges_unseen_crowded :
    let g := ((Assembly.empty 1).performAll plainOperations).build
    let g' := ((Assembly.empty 1).performAll crowdedOperations).build
    (accepted 1 plainOperations).length ≠ (accepted 1 crowdedOperations).length ∧
    (∀ choose service clock filter settings rounds t,
      singleContext filter settings rounds ⟨g.store choose, service, clock⟩ () t =
        singleContext filter settings rounds ⟨g'.store choose, service, clock⟩ () t) ∧
      g.similar ⟨1⟩ = g'.similar ⟨1⟩ := by
  intro g g'
  have nodes : added 1 plainOperations = added 1 crowdedOperations := rfl
  have steps : readingSteps (accepted 1 plainOperations) =
      readingSteps (accepted 1 crowdedOperations) := by decide +kernel
  have links : (linksOf (accepted 1 plainOperations) ⟨1⟩).map (fun r => (r.score?, r.dst)) =
      (linksOf (accepted 1 crowdedOperations) ⟨1⟩).map fun r => (r.score?, r.dst) := by
    decide +kernel
  obtain ⟨runs, similar⟩ := other_edges_unseen (σ := Unit) 1 1 _ _ nodes
  refine ⟨by decide +kernel, fun choose service clock filter settings rounds t => ?_,
    similar ⟨1⟩ links⟩
  exact runs steps choose service clock filter settings rounds () t

end Evolution

end QuestionSynthesis
