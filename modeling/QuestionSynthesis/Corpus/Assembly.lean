import Std.Data.TreeMap
import QuestionSynthesis.Error

/-!
Assembling a knowledge graph. Nodes and relationships are only ever added. An operation that fails
keeps what it had added before: a chain of chunks may end half linked.
-/

namespace QuestionSynthesis

structure Assembly where
  nodes : Std.TreeMap Nat Node := {}
  order : Array NodeId := #[]
  relationships : Array Relationship := #[]
  nextId : Nat := 0

namespace Assembly

def new : Assembly := { nextId := 1 }

def zeroBased : Assembly := {}

def has (a : Assembly) (id : NodeId) : Bool := a.nodes.contains id.val

def addNode (a : Assembly) (n : Node) : NodeId × Assembly :=
  let id : NodeId := ⟨a.nextId⟩
  (id, { a with
    nodes := a.nodes.insert id.val { n with id }
    order := a.order.push id
    nextId := a.nextId + 1 })

def addChunk (a : Assembly) (docId content : String) : NodeId × Assembly :=
  a.addNode { id := ⟨0⟩, docId, content }

def relate (a : Assembly) (src dst : NodeId) (label : String) (properties : Properties) :
    Except Error RelationshipId × Assembly :=
  if !a.has src then (.error (.unknownSource src), a)
  else if !a.has dst then (.error (.unknownTarget dst), a)
  else
    let id : RelationshipId := ⟨a.relationships.size + 1⟩
    (.ok id, { a with relationships := a.relationships.push { id, src, dst, label, properties } })

/-- Adds an edge, then one back. The way back is not tried if the way out fails. -/
def relateBoth (a : Assembly) (x y : NodeId) (out back : String) (properties : Properties) :
    Except Error Unit × Assembly :=
  match a.relate x y out properties with
  | (.error e, b) => (.error e, b)
  | (.ok _, b) =>
    match b.relate y x back properties with
    | (.error e, c) => (.error e, c)
    | (.ok _, c) => (.ok (), c)

def linkSequence (a : Assembly) : List NodeId → Except Error Unit × Assembly
  | x :: y :: r =>
    match a.relateBoth x y Direction.next.label Direction.prev.label [] with
    | (.error e, b) => (.error e, b)
    | (.ok _, b) => b.linkSequence (y :: r)
  | _ => (.ok (), a)

def linkSimilar (a : Assembly) (x y : NodeId) (score : Binary64) : Except Error Unit × Assembly :=
  a.relateBoth x y similarLabel similarLabel [(scoreProperty, .double score)]

inductive Operation where
  | addNode (node : Node)
  | addChunk (docId content : String)
  | relate (src dst : NodeId) (label : String) (properties : Properties)
  | linkSequence (chunks : List NodeId)
  | linkSimilar (a b : NodeId) (score : Binary64)

inductive Receipt where
  | node (id : NodeId)
  | relationship (id : RelationshipId)
  | linked
  deriving DecidableEq

def perform (a : Assembly) : Operation → Except Error Receipt × Assembly
  | .addNode n => let (id, b) := a.addNode n; (.ok (.node id), b)
  | .addChunk docId content => let (id, b) := a.addChunk docId content; (.ok (.node id), b)
  | .relate src dst label properties =>
    let (answer, b) := a.relate src dst label properties
    (answer.map .relationship, b)
  | .linkSequence chunks =>
    let (answer, b) := a.linkSequence chunks
    (answer.map fun _ => .linked, b)
  | .linkSimilar x y score =>
    let (answer, b) := a.linkSimilar x y score
    (answer.map fun _ => .linked, b)

def performAll (a : Assembly) (ops : List Operation) : Assembly :=
  ops.foldl (fun b op => (b.perform op).2) a

end Assembly

end QuestionSynthesis
