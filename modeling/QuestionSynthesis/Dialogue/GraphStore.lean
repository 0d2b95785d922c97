import QuestionSynthesis.Corpus.Graph
import QuestionSynthesis.Dialogue.Session

/-!
A graph as the store of a session. All a graph leaves open is which nodes a sample holds; that is
up to a chooser of positions, which may remember everything that was exchanged.
-/

namespace QuestionSynthesis

/-- Chooses, after some exchanges, so many positions among so many. -/
abbrev Chooser := Trace → (available : Nat) → (k : Nat) → List Nat

/-- A chooser that keeps to its task: as many positions as asked for, all of them there, none
twice. -/
def Chooser.Sound (choose : Chooser) : Prop :=
  ∀ t available k, k ≤ available →
    (choose t available k).length = k ∧ (choose t available k).Nodup ∧
      ∀ i ∈ choose t available k, i < available

def Graph.store (g : Graph) (choose : Chooser) : Store where
  sample t k := g.sample k (choose t g.order.size k)
  adjacent _ id d := g.adjacent id d
  similar _ id := g.similar id

end QuestionSynthesis
