import QuestionSynthesis.Corpus.Assembly
import QuestionSynthesis.Corpus.Query

/-!
The finished knowledge graph. Two indexes give the positions of the edges that leave and that reach
a node, so a query looks at the edges of its node only.
-/

namespace QuestionSynthesis

abbrev EdgeIndex := Std.TreeMap Nat (Array Nat)

def EdgeIndex.note (t : EdgeIndex) (id : NodeId) (position : Nat) : EdgeIndex :=
  t.insert id.val ((t.getD id.val #[]).push position)

structure Graph where
  nodes : Std.TreeMap Nat Node
  order : Array NodeId
  relationships : Array Relationship
  outgoing : EdgeIndex
  incoming : EdgeIndex

def EdgeIndex.ofEnds (ends : Relationship → NodeId) (relationships : List Relationship) :
    EdgeIndex :=
  relationships.zipIdx.foldl (fun t (r, i) => t.note (ends r) i) ∅

def Assembly.build (a : Assembly) : Graph where
  nodes := a.nodes
  order := a.order
  relationships := a.relationships
  outgoing := .ofEnds Relationship.src a.relationships.toList
  incoming := .ofEnds Relationship.dst a.relationships.toList

namespace Graph

def nodeCount (g : Graph) : Nat := g.nodes.size

def relationshipCount (g : Graph) : Nat := g.relationships.size

def node? (g : Graph) (id : NodeId) : Option Node := g.nodes[id.val]?

def edges (g : Graph) (index : EdgeIndex) (id : NodeId) : List Relationship :=
  (index.getD id.val #[]).toList.filterMap (g.relationships[·]?)

def edgesFrom (g : Graph) (id : NodeId) : List Relationship := g.edges g.outgoing id

def edgesTo (g : Graph) (id : NodeId) : List Relationship := g.edges g.incoming id

def require (g : Graph) (id : NodeId) : Except Error Unit :=
  if (g.node? id).isSome then .ok () else .error (.unknownNode id)

/-- The node that the first edge of a direction leads to, or else the one that the first edge of
the opposite direction comes from: `x -NEXT-> y` says that `x` precedes `y`. -/
def neighbour? (g : Graph) (id : NodeId) (d : Direction) : Option NodeId :=
  match (g.edgesFrom id).find? (·.hasLabel d.label) with
  | some r => some r.dst
  | none => ((g.edgesTo id).find? (·.hasLabel d.opposite.label)).map Relationship.src

def adjacent (g : Graph) (id : NodeId) (d : Direction) : Except Error (Option Node) := do
  g.require id
  return (g.neighbour? id d).bind g.node?

def rankLe : Option Binary64 → Option Binary64 → Bool
  | some x, some y => y.rank ≤ x.rank
  | some _, none => true
  | none, some _ => false
  | none, none => true

/-- The chunks that a node is similar to, best score first, equal scores in order of insertion. -/
def similar (g : Graph) (id : NodeId) : Except Error (List Node) := do
  g.require id
  let links := (g.edgesFrom id).filter (·.hasLabel similarLabel)
  let ranked := (links.map fun r => (r.score?, r.dst)).mergeSort fun p q => rankLe p.1 q.1
  return ranked.filterMap fun p => g.node? p.2

def filterNodes (g : Graph) (q : NodeQuery) : List Node :=
  (g.order.toList.filterMap g.node?).filter q.holds

def relationshipsOf (g : Graph) (id : NodeId) (q : RelationshipQuery) :
    Except Error (List Relationship) := do
  g.require id
  return (g.edgesFrom id).filter fun r => (g.node? r.dst).any (q.holds r)

def sample (g : Graph) (k : Nat) (positions : List Nat) : Except Error (List Node) :=
  if g.order.size < k then .error (.insufficientNodes k g.order.size)
  else .ok (positions.filterMap fun i => g.order[i]?.bind g.node?)

end Graph

end QuestionSynthesis
