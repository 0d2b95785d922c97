import QuestionSynthesis.Dialogue.Session
import QuestionSynthesis.Dialogue.StructuredReply
import QuestionSynthesis.Dialogue.Template

/-!
The two gates before a question is kept. Each makes one call to the text service and reads a
structured reply. Malformed replies never fail: a score that cannot be read is `0`, a verdict that
cannot be read accepts.
-/

namespace QuestionSynthesis

open Json (Reader Record)

structure NodeVerdict where
  score : Binary64
  passed : Bool
  deriving DecidableEq, Inhabited

namespace NodeVerdict

def ofScore (score threshold : Binary64) : NodeVerdict := ⟨score, threshold.le score⟩

def fieldNames : List String := ["score", "passed"]

def read : Reader NodeVerdict := fun room j => do
  let r ← Record.read fieldNames room j
  let score ← r.required "score" Reader.double
  let passed ← r.required "passed" Reader.bool
  return { score, passed }

def toJson (v : NodeVerdict) : Json := .object
  [("score", .ofDouble v.score), ("passed", .bool v.passed)]

end NodeVerdict

/-- The score in a reply: a number, or a text that spells one; otherwise `0`. -/
def scoreOf (members : Entries Json) : Binary64 :=
  match Entries.get? "score" members with
  | some (.int n) => .ofInt n
  | some (.double x) => x
  | some (.string s) => (Binary64.parse? (Text.trim s.toList)).getD .zero
  | _ => .zero

/-- Whether a reply accepts: only the text `No` as its verdict rejects. -/
def accepts (members : Entries Json) : Bool :=
  match Entries.get? "verdict" members with
  | some (.string v) => v != "No"
  | _ => true

structure NodeFilter where
  threshold : Binary64
  deriving DecidableEq, Inhabited

namespace NodeFilter

/-- The threshold where none is set: `7.5`. -/
def defaultThreshold : Binary64 := ⟨0x401e000000000000⟩

def text (f : NodeFilter) : String :=
  "NodeFilter \x7b threshold: " ++ f.threshold.text .marked ++ ", .. \x7d"

def evaluate {σ : Type} (f : NodeFilter) (n : Node) : Session σ NodeVerdict := do
  let prompt ← Session.ofExcept (Template.contextScoring.render [("context", n.content)])
  let reply ← Session.generateText prompt
  return .ofScore (scoreOf (StructuredReply.load reply).members) f.threshold

end NodeFilter

namespace QuestionFilter

def text : String := "QuestionFilter \x7b .. \x7d"

def evaluate {σ : Type} (question : String) : Session σ Bool := do
  let prompt ← Session.ofExcept (Template.filterQuestion.render [("question", question)])
  let reply ← Session.generateText prompt
  return accepts (StructuredReply.load reply).members

end QuestionFilter

end QuestionSynthesis
