import QuestionSynthesis.Corpus.Query
import QuestionSynthesis.Property.Document

/-!
Nodes, relationships and queries as JSON documents.
-/

namespace QuestionSynthesis

open Json (Reader Record)

namespace NodeId

def read : Reader NodeId := fun room j => (Reader.word room j).map NodeId.mk

def toJson (id : NodeId) : Json := .int id.val

end NodeId

namespace RelationshipId

def read : Reader RelationshipId := fun room j => (Reader.word room j).map RelationshipId.mk

def toJson (id : RelationshipId) : Json := .int id.val

end RelationshipId

namespace NodeLabel

def name : NodeLabel → String
  | doc => "doc"
  | chunk => "chunk"

def ofName? (s : String) : Option NodeLabel :=
  if s = "doc" then some doc else if s = "chunk" then some chunk else none

def read : Reader NodeLabel := Reader.choice ofName?

def toJson (l : NodeLabel) : Json := .string l.name

end NodeLabel

namespace NodeLevel

def name : NodeLevel → String
  | level0 => "Level0"
  | level1 => "Level1"
  | level2 => "Level2"

def ofName? (s : String) : Option NodeLevel :=
  if s = "Level0" then some level0
  else if s = "Level1" then some level1
  else if s = "Level2" then some level2
  else none

def read : Reader NodeLevel := Reader.choice ofName?

def toJson (l : NodeLevel) : Json := .string l.name

end NodeLevel

namespace Direction

def name : Direction → String
  | prev => "Prev"
  | next => "Next"

def ofName? (s : String) : Option Direction :=
  if s = "Prev" then some prev else if s = "Next" then some next else none

def read : Reader Direction := Reader.choice ofName?

def toJson (d : Direction) : Json := .string d.name

end Direction

namespace Comparison

def name : Comparison → String
  | gt => "gt"
  | lt => "lt"
  | eq => "eq"

def ofName? (s : String) : Option Comparison :=
  if s = "gt" then some gt else if s = "lt" then some lt else if s = "eq" then some eq else none

def read : Reader Comparison := Reader.choice ofName?

def toJson (c : Comparison) : Json := .string c.name

end Comparison

def Json.ofOption {α : Type} (toJson : α → Json) : Option α → Json
  | some a => toJson a
  | none => .null

namespace Node

def fieldNames : List String := ["id", "doc_id", "content", "label", "level", "properties"]

def read : Reader Node := fun room j => do
  let r ← Record.read fieldNames room j
  let id ← r.required "id" NodeId.read
  let docId ← r.required "doc_id" Reader.string
  let content ← r.required "content" Reader.string
  let label ← r.required "label" NodeLabel.read
  let level ← r.optional "level" NodeLevel.read
  let properties ← r.required "properties" Properties.read
  return { id, docId, content, label, level, properties }

def toJson (n : Node) : Json := .object
  [("id", n.id.toJson), ("doc_id", .string n.docId), ("content", .string n.content),
    ("label", n.label.toJson), ("level", .ofOption NodeLevel.toJson n.level),
    ("properties", Properties.toJson n.properties)]

end Node

namespace Relationship

def fieldNames : List String := ["id", "src", "dst", "label", "properties"]

def read : Reader Relationship := fun room j => do
  let r ← Record.read fieldNames room j
  let id ← r.required "id" RelationshipId.read
  let src ← r.required "src" NodeId.read
  let dst ← r.required "dst" NodeId.read
  let label ← r.required "label" Reader.string
  let properties ← r.required "properties" Properties.read
  return { id, src, dst, label, properties }

def toJson (r : Relationship) : Json := .object
  [("id", r.id.toJson), ("src", r.src.toJson), ("dst", r.dst.toJson), ("label", .string r.label),
    ("properties", Properties.toJson r.properties)]

end Relationship

namespace PropertyPredicate

def fieldNames : List String := ["key", "value", "comparison"]

def read : Reader PropertyPredicate := fun room j => do
  let r ← Record.read fieldNames room j
  let key ← r.required "key" Reader.string
  let value ← r.required "value" Value.read
  let comparison ← r.required "comparison" Comparison.read
  return { key, value, comparison }

def toJson (p : PropertyPredicate) : Json := .object
  [("key", .string p.key), ("value", p.value.toJson), ("comparison", p.comparison.toJson)]

end PropertyPredicate

namespace NodeQuery

def fieldNames : List String := ["ids", "label", "level", "property"]

def readProperty : Reader (String × Value)
  | room + 1, .array [k, v] => do
    let name ← Reader.string room k
    let value ← Value.read room v
    return (name, value)
  | _, _ => none

def read : Reader NodeQuery := fun room j => do
  let r ← Record.read fieldNames room j
  let ids ← r.optional "ids" (Reader.list NodeId.read)
  let label ← r.optional "label" NodeLabel.read
  let level ← r.optional "level" NodeLevel.read
  let property ← r.optional "property" readProperty
  return { ids, label, level, property }

def toJson (q : NodeQuery) : Json := .object
  [("ids", .ofOption (fun ids => .array (ids.map NodeId.toJson)) q.ids),
    ("label", .ofOption NodeLabel.toJson q.label), ("level", .ofOption NodeLevel.toJson q.level),
    ("property", .ofOption (fun (name, v) => .array [.string name, v.toJson]) q.property)]

end NodeQuery

namespace TargetFilter

def fieldNames : List String := ["label", "property"]

def read : Reader TargetFilter := fun room j => do
  let r ← Record.read fieldNames room j
  let label ← r.optional "label" NodeLabel.read
  let property ← r.optional "property" PropertyPredicate.read
  return { label, property }

def toJson (f : TargetFilter) : Json := .object
  [("label", .ofOption NodeLabel.toJson f.label),
    ("property", .ofOption PropertyPredicate.toJson f.property)]

end TargetFilter

namespace RelationshipQuery

def fieldNames : List String := ["label", "property", "target"]

def read : Reader RelationshipQuery := fun room j => do
  let r ← Record.read fieldNames room j
  let label ← r.optional "label" Reader.string
  let property ← r.optional "property" PropertyPredicate.read
  let target ← r.optional "target" TargetFilter.read
  return { label, property, target }

def toJson (q : RelationshipQuery) : Json := .object
  [("label", .ofOption .string q.label),
    ("property", .ofOption PropertyPredicate.toJson q.property),
    ("target", .ofOption TargetFilter.toJson q.target)]

end RelationshipQuery

end QuestionSynthesis
