import QuestionSynthesis.Error
import QuestionSynthesis.Json.Reader

/-!
How the rows of a test set are shared out between the kinds of evolution: by two weights, and to
the nearest whole row.
-/

namespace QuestionSynthesis

open Json (Reader Record)

structure Distribution where
  simple : Binary64 := ⟨0x3fe0000000000000⟩
  multiContext : Binary64 := ⟨0x3fe0000000000000⟩
  deriving DecidableEq, Inhabited

namespace Distribution

def text (d : Distribution) : String :=
  "Distribution \x7b simple: " ++ d.simple.text .marked ++ ", multi_context: " ++
    d.multiContext.text .marked ++ " \x7d"

def isWeight (w : Binary64) : Bool := w.isFinite && !w.lt .zero

def validate (d : Distribution) : Except Error Unit :=
  if !isWeight d.simple || !isWeight d.multiContext then
    .error (.config ("distribution weights must be non-negative: " ++ d.text))
  else if (d.simple.add d.multiContext).le .zero then
    .error (.config "distribution weights sum to zero")
  else .ok ()

/-- Shares out `n` rows: the nearest number to the share of simple ones, and the rest. -/
def counts (d : Distribution) (n : Nat) : Except Error (Nat × Nat) := do
  d.validate
  let share := d.simple.div (d.simple.add d.multiContext)
  let simple := min ((Binary64.ofNat n).mul share).roundToWord n
  return (simple, n - simple)

def fieldNames : List String := ["simple", "multi_context"]

def read : Reader Distribution := fun room j => do
  let r ← Record.readPartial fieldNames room j
  let d : Distribution := {}
  let simple ← r.orDefault "simple" d.simple Reader.double
  let multiContext ← r.orDefault "multi_context" d.multiContext Reader.double
  return { simple, multiContext }

def toJson (d : Distribution) : Json := .object
  [("simple", .ofDouble d.simple), ("multi_context", .ofDouble d.multiContext)]

end Distribution

end QuestionSynthesis
