import QuestionSynthesis.Corpus.Document
import QuestionSynthesis.Text.Blank

/-!
Answers of the text service: completions of a prompt, and what they cost.
-/

namespace QuestionSynthesis

open Json (Reader Record)

structure TokenUsage where
  promptTokens : Nat := 0
  completionTokens : Nat := 0
  totalTokens : Nat := 0
  deriving DecidableEq, Inhabited

namespace TokenUsage

def merge (a b : TokenUsage) : TokenUsage where
  promptTokens := a.promptTokens + b.promptTokens
  completionTokens := a.completionTokens + b.completionTokens
  totalTokens := a.totalTokens + b.totalTokens

def fieldNames : List String := ["prompt_tokens", "completion_tokens", "total_tokens"]

def read : Reader TokenUsage := fun room j => do
  let r ← Record.read fieldNames room j
  let promptTokens ← r.required "prompt_tokens" Reader.word
  let completionTokens ← r.required "completion_tokens" Reader.word
  let totalTokens ← r.required "total_tokens" Reader.word
  return { promptTokens, completionTokens, totalTokens }

def toJson (u : TokenUsage) : Json := .object
  [("prompt_tokens", .int u.promptTokens), ("completion_tokens", .int u.completionTokens),
    ("total_tokens", .int u.totalTokens)]

end TokenUsage

structure Completion where
  text : String
  finishReason : Option String := some "stop"
  deriving DecidableEq, Inhabited

namespace Completion

def fieldNames : List String := ["text", "finish_reason"]

def read : Reader Completion := fun room j => do
  let r ← Record.read fieldNames room j
  let text ← r.required "text" Reader.string
  let finishReason ← r.optional "finish_reason" Reader.string
  return { text, finishReason }

def toJson (c : Completion) : Json := .object
  [("text", .string c.text), ("finish_reason", .ofOption .string c.finishReason)]

end Completion

structure Completions where
  generations : List Completion := []
  usage : TokenUsage := {}
  deriving DecidableEq, Inhabited

namespace Completions

def single (text : String) : Completions := { generations := [{ text }] }

def firstText? (c : Completions) : Option String :=
  c.generations.head?.map fun g => Text.trimmed g.text

def fieldNames : List String := ["generations", "usage"]

def read : Reader Completions := fun room j => do
  let r ← Record.read fieldNames room j
  let generations ← r.required "generations" (Reader.list Completion.read)
  let usage ← r.required "usage" TokenUsage.read
  return { generations, usage }

def toJson (c : Completions) : Json := .object
  [("generations", .array (c.generations.map Completion.toJson)), ("usage", c.usage.toJson)]

end Completions

end QuestionSynthesis
