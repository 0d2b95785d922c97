import QuestionSynthesis.Property.Value

/-!
Nodes of the knowledge graph: documents, and the chunks that they were split into.
-/

namespace QuestionSynthesis

structure NodeId where
  val : Nat
  deriving DecidableEq, Inhabited

inductive NodeLabel where
  | doc
  | chunk
  deriving DecidableEq, Inhabited

inductive NodeLevel where
  | level0
  | level1
  | level2
  deriving DecidableEq, Inhabited

def NodeLevel.next? : NodeLevel → Option NodeLevel
  | .level0 => some .level1
  | .level1 => some .level2
  | .level2 => none

structure Node where
  id : NodeId
  docId : String
  content : String
  label : NodeLabel := .chunk
  level : Option NodeLevel := none
  properties : Properties := []
  deriving Inhabited

namespace Node

def withProperty (n : Node) (name : String) (v : Value) : Node :=
  { n with properties := Entries.insert name v n.properties }

def get? (n : Node) (name : String) : Option Value := Entries.get? name n.properties

def contextSeparator : String := "\n\n"

def mergeContents (nodes : List Node) : String :=
  contextSeparator.intercalate (nodes.map Node.content)

end Node

end QuestionSynthesis
