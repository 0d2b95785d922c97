import QuestionSynthesis.Corpus.Document

/-!
Questions that were kept, with the context they were built from.
-/

namespace QuestionSynthesis

open Json (Reader Record)

namespace Evolution

inductive Kind where
  | simple
  | multiContext
  deriving DecidableEq, Inhabited

namespace Kind

def name : Kind → String
  | simple => "simple"
  | multiContext => "multi_context"

def ofName? (s : String) : Option Kind :=
  if s = "simple" then some simple
  else if s = "multi_context" then some multiContext
  else none

def read : Reader Kind := Reader.choice ofName?

def toJson (k : Kind) : Json := .string k.name

end Kind

end Evolution

structure Evolved where
  question : String
  contexts : List Node
  root : NodeId
  kind : Evolution.Kind
  tries : Nat
  resamples : Nat

namespace Evolved

def fieldNames : List String := ["question", "contexts", "root", "kind", "tries", "resamples"]

def read : Reader Evolved := fun room j => do
  let r ← Record.read fieldNames room j
  let question ← r.required "question" Reader.string
  let contexts ← r.required "contexts" (Reader.list Node.read)
  let root ← r.required "root" NodeId.read
  let kind ← r.required "kind" Evolution.Kind.read
  let tries ← r.required "tries" Reader.word
  let resamples ← r.required "resamples" Reader.word
  return { question, contexts, root, kind, tries, resamples }

def toJson (e : Evolved) : Json := .object
  [("question", .string e.question), ("contexts", .array (e.contexts.map Node.toJson)),
    ("root", e.root.toJson), ("kind", e.kind.toJson), ("tries", .int e.tries),
    ("resamples", .int e.resamples)]

end Evolved

end QuestionSynthesis
