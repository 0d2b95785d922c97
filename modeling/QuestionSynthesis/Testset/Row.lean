import QuestionSynthesis.Evolution.Evolved
import QuestionSynthesis.Json.Printer
import QuestionSynthesis.Timestamp

/-!
Test sets: the rows that were kept and the reasons for those that were not, with their documents.
-/

namespace QuestionSynthesis

open Json (Reader Record)

namespace Timestamp

def read : Reader Timestamp := fun room j => (Reader.string room j).bind fun s => parse? s.toList

def toJson (t : Timestamp) : Json := .string (String.ofList t.text)

end Timestamp

structure TestsetRow where
  question : String
  reference : String
  contexts : List String
  contextIds : List NodeId
  kind : Evolution.Kind
  tries : Nat
  generatedAt : Timestamp
  deriving DecidableEq

namespace TestsetRow

def ofEvolved (e : Evolved) (reference : String) (generatedAt : Timestamp) : TestsetRow where
  question := e.question
  reference := reference
  contexts := e.contexts.map Node.content
  contextIds := e.contexts.map Node.id
  kind := e.kind
  tries := e.tries
  generatedAt := generatedAt

def fieldNames : List String :=
  ["question", "reference", "contexts", "context_ids", "evolution_type", "tries", "generated_at"]

def read : Reader TestsetRow := fun room j => do
  let r ← Record.read fieldNames room j
  let question ← r.required "question" Reader.string
  let reference ← r.required "reference" Reader.string
  let contexts ← r.required "contexts" (Reader.list Reader.string)
  let contextIds ← r.required "context_ids" (Reader.list NodeId.read)
  let kind ← r.required "evolution_type" Evolution.Kind.read
  let tries ← r.required "tries" Reader.word
  let generatedAt ← r.required "generated_at" Timestamp.read
  return { question, reference, contexts, contextIds, kind, tries, generatedAt }

def toJson (r : TestsetRow) : Json := .object
  [("question", .string r.question), ("reference", .string r.reference),
    ("contexts", .array (r.contexts.map .string)),
    ("context_ids", .array (r.contextIds.map NodeId.toJson)),
    ("evolution_type", r.kind.toJson), ("tries", .int r.tries),
    ("generated_at", r.generatedAt.toJson)]

end TestsetRow

structure SkippedRow where
  kind : Evolution.Kind
  reason : String
  deriving DecidableEq

namespace SkippedRow

def fieldNames : List String := ["evolution_type", "reason"]

def read : Reader SkippedRow := fun room j => do
  let r ← Record.read fieldNames room j
  let kind ← r.required "evolution_type" Evolution.Kind.read
  let reason ← r.required "reason" Reader.string
  return { kind, reason }

def toJson (s : SkippedRow) : Json := .object
  [("evolution_type", s.kind.toJson), ("reason", .string s.reason)]

end SkippedRow

structure Testset where
  rows : List TestsetRow := []
  skipped : List SkippedRow := []
  deriving DecidableEq

namespace Testset

def length (t : Testset) : Nat := t.rows.length

def isEmpty (t : Testset) : Bool := t.rows.isEmpty

def fieldNames : List String := ["rows", "skipped"]

def read : Reader Testset := fun room j => do
  let r ← Record.read fieldNames room j
  let rows ← r.required "rows" (Reader.list TestsetRow.read)
  let skipped ← r.required "skipped" (Reader.list SkippedRow.read)
  return { rows, skipped }

def toJson (t : Testset) : Json := .object
  [("rows", .array (t.rows.map TestsetRow.toJson)),
    ("skipped", .array (t.skipped.map SkippedRow.toJson))]

def text (t : Testset) : String := t.toJson.toPretty

def ofText (text : String) : Except Error Testset :=
  match Json.decode read text with
  | some t => .ok t
  | none => .error .json

end Testset

end QuestionSynthesis
