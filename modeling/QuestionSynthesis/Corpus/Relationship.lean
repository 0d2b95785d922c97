import QuestionSynthesis.Corpus.Node

/-!
Relationships: directed, labelled edges between nodes. Chunks of a document are chained by `NEXT`
and `PREV`, related chunks are linked by `SIMILAR` with a score.
-/

namespace QuestionSynthesis

structure RelationshipId where
  val : Nat
  deriving DecidableEq, Inhabited

inductive Direction where
  | prev
  | next
  deriving DecidableEq, Inhabited

namespace Direction

def label : Direction → String
  | prev => "PREV"
  | next => "NEXT"

def opposite : Direction → Direction
  | prev => next
  | next => prev

end Direction

def similarLabel : String := "SIMILAR"

def scoreProperty : String := "score"

structure Relationship where
  id : RelationshipId
  src : NodeId
  dst : NodeId
  label : String
  properties : Properties := []
  deriving Inhabited

namespace Relationship

def hasLabel (r : Relationship) (label : String) : Bool := r.label == label

def score? (r : Relationship) : Option Binary64 :=
  (Entries.get? scoreProperty r.properties).bind Value.number?

end Relationship

end QuestionSynthesis
