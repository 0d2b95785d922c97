import QuestionSynthesis.Error

/-!
Prompt templates: an instruction and named inputs. Rendering demands exactly the declared inputs, so
that a misspelled name fails instead of sending an empty context.
-/

namespace QuestionSynthesis

structure Template where
  name : String
  instruction : String
  inputs : List String
  outputFormat : Option String := none

namespace Template

def unknownVariable (t : Template) (key : String) : Error :=
  .prompt s!"{t.name}: unknown variable '{key}'"

def missingVariable (t : Template) (key : String) : Error :=
  .prompt s!"{t.name}: missing variable '{key}'"

/-- The lines of the declared inputs, each with the first value supplied for it. -/
def lines (t : Template) (vars : List (String × String)) : List String → Except Error String
  | [] => .ok ""
  | key :: r =>
    match vars.lookup key with
    | none => .error (t.missingVariable key)
    | some v => (lines t vars r).map fun rest => key ++ ": " ++ v ++ "\n" ++ rest

def render (t : Template) (vars : List (String × String)) : Except Error String :=
  match vars.find? (fun p => !t.inputs.contains p.1) with
  | some p => .error (t.unknownVariable p.1)
  | none => do
    let body ← t.lines vars t.inputs
    let ending := match t.outputFormat with
      | some f => "\n" ++ f ++ "\n"
      | none => ""
    return t.instruction ++ "\n\n" ++ body ++ ending

def contextScoring : Template where
  name := "context_scoring"
  instruction :=
    "Evaluate the provided context and assign a numerical score between 0 and 10 " ++
    "based on: clarity (is the information precise and easy to understand), depth (does it go " ++
    "beyond surface-level facts), structure (is it logically organised), and relevance (is it " ++
    "free of unrelated boilerplate such as navigation text or references). Average the criteria."
  inputs := ["context"]
  outputFormat := some "Respond only with JSON: \x7b\"score\": <number between 0 and 10>\x7d"

def filterQuestion : Template where
  name := "filter_question"
  instruction :=
    "Determine whether the given question can be clearly understood and answered " ++
    "without additional context. A good question names its subject explicitly, asks for one " ++
    "thing, and does not refer to 'the context' or 'the passage'."
  inputs := ["question"]
  outputFormat := some <| "Respond only with JSON: \x7b\"reason\": \"<short reason>\", " ++
    "\"verdict\": \"Yes\" | \"No\"\x7d"

def seedQuestion : Template where
  name := "seed_question"
  instruction :=
    "Generate one question that can be fully answered from the given context. " ++
    "The question should be answerable by someone who has read the context and should not " ++
    "mention the context itself. Write it in the requested style and at the requested length. " ++
    "Respond with the question only."
  inputs := ["context", "style", "length"]

def multiContextQuestion : Template where
  name := "multi_context_question"
  instruction :=
    "Rewrite the given question so that answering it requires information from " ++
    "both context1 and context2. The rewritten question must be answerable from the two " ++
    "contexts together, must not be answerable from either one alone, and must not mention " ++
    "'context1' or 'context2'. Respond with the rewritten question only."
  inputs := ["question", "context1", "context2"]

def compressQuestion : Template where
  name := "compress_question"
  instruction :=
    "Rewrite the following question to make it more concise and coherent while " ++
    "keeping its meaning. Use abbreviations where natural, drop filler words, and keep a " ++
    "single question mark. Respond with the rewritten question only."
  inputs := ["question"]

def referenceAnswer : Template where
  name := "reference_answer"
  instruction :=
    "Answer the question using only the information in the given context. " ++
    "Be complete but concise, and do not add facts the context does not state. Respond with " ++
    "the answer only."
  inputs := ["question", "context"]

end Template

end QuestionSynthesis
