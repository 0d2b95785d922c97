import QuestionSynthesis.Corpus.Relationship

/-!
What can go wrong, and how it is worded. Three of the errors say that a request produced nothing
usable although every service worked: these cost a row, all others end a batch.
-/

namespace QuestionSynthesis

inductive Error where
  | insufficientNodes (requested available : Nat)
  | retriesExhausted (tries maxTries : Nat)
  | resamplesExhausted (resamples : Nat)
  | noSimilarContext (node : NodeId)
  | serviceUnavailable (text : String)
  | generation (text : String)
  | prompt (text : String)
  | invalidQuery (text : String)
  | notFound (text : String)
  | config (text : String)
  | json
  deriving DecidableEq

namespace Error

def message : Error → String
  | insufficientNodes requested available =>
    s!"Insufficient nodes: requested {requested}, graph holds {available}"
  | retriesExhausted tries maxTries =>
    s!"Retries exhausted: {tries} question-check failures (max_tries = {maxTries})"
  | resamplesExhausted resamples =>
    s!"Node resamples exhausted after {resamples} low-scoring nodes"
  | noSimilarContext node => s!"No similar context for node {node.val}"
  | serviceUnavailable text => s!"Service unavailable: {text}"
  | generation text => s!"Generation error: {text}"
  | prompt text => s!"Prompt error: {text}"
  | invalidQuery text => s!"Invalid query: {text}"
  | notFound text => s!"Not found: {text}"
  | config text => s!"Configuration error: {text}"
  | json => "JSON error"

/-- The request produced nothing usable; a fresh one may succeed. -/
def isContentFailure : Error → Bool
  | retriesExhausted .. | resamplesExhausted .. | noSimilarContext .. => true
  | _ => false

def unknownNode (id : NodeId) : Error := notFound s!"Node {id.val}"

def unknownSource (id : NodeId) : Error := notFound s!"Source node {id.val}"

def unknownTarget (id : NodeId) : Error := notFound s!"Target node {id.val}"

def noCompletions : Error := generation "service returned no completions"

end Error

end QuestionSynthesis
