import QuestionSynthesis.Evolution.SingleContext

/-!
Questions that span two chunks. A question about one window is recast so that answering it takes
an anchor chunk and the chunk most similar to it, and is then condensed. The recasting is not
retried.
-/

namespace QuestionSynthesis

namespace Evolution

def nonEmpty {σ : Type} (step : String) (text : String) : Session σ String :=
  if text.isEmpty then Session.fail (.generation s!"{step} returned an empty question")
  else return text

def mostSimilar {σ : Type} (anchor : NodeId) : Session σ Node := do
  match ← Session.similar anchor with
  | n :: _ => return n
  | [] => Session.fail (.noSimilarContext anchor)

def reconcile {σ : Type} (question : String) (anchor other : Node) : Session σ String := do
  let prompt ← Session.ofExcept <| Template.multiContextQuestion.render
    [("question", question), ("context1", anchor.content), ("context2", other.content)]
  nonEmpty "multi-context rewrite" (← Session.generateText prompt)

def compress {σ : Type} (question : String) : Session σ String := do
  let prompt ← Session.ofExcept (Template.compressQuestion.render [("question", question)])
  nonEmpty "compression" (← Session.generateText prompt)

/-- Evolves a question about an anchor and the chunk most similar to it. The anchor is sampled
before the seed question and independently of it. -/
def multiContext {σ : Type} (filter : NodeFilter) (settings : Settings) (rounds : Nat) :
    Session σ Evolved := do
  let anchor ← Session.sampleOne
  let seed ← singleContext filter settings rounds
  let other ← mostSimilar anchor.id
  let merged ← reconcile seed.question anchor other
  let question ← compress merged
  return {
    question, contexts := [anchor, other], root := anchor.id, kind := .multiContext,
    tries := seed.tries, resamples := seed.resamples }

def evolve {σ : Type} (kind : Kind) (filter : NodeFilter) (settings : Settings) (rounds : Nat) :
    Session σ Evolved :=
  match kind with
  | .simple => singleContext filter settings rounds
  | .multiContext => multiContext filter settings rounds

end Evolution

end QuestionSynthesis
