import QuestionSynthesis.Dialogue.Session
import QuestionSynthesis.Evolution.Settings

/-!
One attempt at a question: the window of consecutive chunks that the question is asked of, and the
rejections counted so far. A rejection is counted even where it ends the attempt; everything else
changes the window only when it succeeds.
-/

namespace QuestionSynthesis

inductive Expansion where
  | prev (id : NodeId)
  | next (id : NodeId)
  /-- There was no chunk to add; the window is a fresh node. -/
  | resampled (id : NodeId)
  deriving DecidableEq

structure Attempt where
  front : Node
  rest : List Node
  root : NodeId
  tries : Nat
  resamples : Nat
  settings : Evolution.Settings

namespace Attempt

def on (root : Node) (settings : Evolution.Settings) : Attempt :=
  { front := root, rest := [], root := root.id, tries := 0, resamples := 0, settings }

def window (a : Attempt) : List Node := a.front :: a.rest

def last (a : Attempt) : Node := a.window.getLast (List.cons_ne_nil _ _)

def context (a : Attempt) : String := Node.mergeContents a.window

def contains (a : Attempt) (id : NodeId) : Bool := a.window.any (·.id == id)

def start {σ : Type} (settings : Evolution.Settings) : Session σ Attempt :=
  return .on (← Session.sampleOne) settings

def resample : Session Attempt NodeId := do
  let root ← Session.sampleOne
  let a ← Session.state
  Session.setState { a with front := root, rest := [], root := root.id }
  return root.id

def rejectNode : Session Attempt Unit := do
  let a ← Session.state
  let resamples := a.resamples + 1
  Session.setState { a with resamples }
  match a.settings.maxResamples with
  | some max => if max < resamples then Session.fail (.resamplesExhausted resamples)
  | none => return

def rejectQuestion : Session Attempt Unit := do
  let a ← Session.state
  let tries := a.tries + 1
  Session.setState { a with tries }
  if a.settings.maxTries < tries then
    Session.fail (.retriesExhausted tries a.settings.maxTries)

def newNeighbour (id : NodeId) (d : Direction) : Session Attempt (Option Node) := do
  let neighbour ← Session.adjacent id d
  let a ← Session.state
  return neighbour.filter fun n => !a.contains n.id

/-- Grows the window: by the chunk before it, else by the chunk after it, else starts over. -/
def expand : Session Attempt Expansion := do
  let a ← Session.state
  match ← newNeighbour a.front.id .prev with
  | some n =>
    Session.setState { a with front := n, rest := a.window }
    return .prev n.id
  | none =>
    match ← newNeighbour a.last.id .next with
    | some n =>
      Session.setState { a with rest := a.rest ++ [n] }
      return .next n.id
    | none => return .resampled (← resample)

end Attempt

end QuestionSynthesis
