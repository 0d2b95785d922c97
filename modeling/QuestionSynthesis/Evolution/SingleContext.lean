import QuestionSynthesis.Evolution.Attempt
import QuestionSynthesis.Evolution.Evolved
import QuestionSynthesis.Evolution.Filter

/-!
Questions about one window of chunks. A round scores the front of the window; a node that fails is
replaced by a fresh one, a node that passes has a question generated from the whole window. A
question that is rejected grows the window, and the next round begins. A budget of rejected nodes
that is unbounded lets rounds go on for ever, so a run is given the rounds it may take.
-/

namespace QuestionSynthesis

namespace Evolution

namespace SingleContext

inductive Round where
  | again
  | kept (e : Evolved)

def seed : Session Attempt String := do
  let a ← Session.state
  let prompt ← Session.ofExcept <| Template.seedQuestion.render
    [("context", a.context), ("style", a.settings.style.describe),
      ("length", a.settings.length.describe)]
  Session.generateText prompt

/-- Whether a question is kept. An empty one is rejected without asking. -/
def isKept (question : String) : Session Attempt Bool :=
  if question.isEmpty then return false else QuestionFilter.evaluate question

def keep (question : String) (a : Attempt) : Evolved where
  question := question
  contexts := a.window
  root := a.root
  kind := .simple
  tries := a.tries
  resamples := a.resamples

def round (filter : NodeFilter) : Session Attempt Round := do
  let verdict ← filter.evaluate (← Session.state).front
  if verdict.passed then
    let question ← seed
    if ← isKept question then
      return .kept (keep question (← Session.state))
    else
      Attempt.rejectQuestion
      let _ ← Attempt.expand
      return .again
  else
    Attempt.rejectNode
    let _ ← Attempt.resample
    return .again

def loop (filter : NodeFilter) : Nat → Session Attempt Evolved
  | 0 => Session.giveUp
  | rounds + 1 => do
    match ← round filter with
    | .kept e => return e
    | .again => loop filter rounds

end SingleContext

def singleContext {σ : Type} (filter : NodeFilter) (settings : Settings) (rounds : Nat) :
    Session σ Evolved := do
  let a ← Attempt.start settings
  Session.within a (SingleContext.loop filter rounds)

end Evolution

end QuestionSynthesis
