import QuestionSynthesis.Evolution.Filter
import QuestionSynthesis.Evolution.Settings
import QuestionSynthesis.Testset.Distribution

/-!
The settings of a batch. Every field has a default, at every level, so any part of the document may
be left out; what is read is then checked as a whole.
-/

namespace QuestionSynthesis

open Json (Reader Record)

namespace Testset

structure Settings where
  threshold : Binary64 := NodeFilter.defaultThreshold
  evolution : Evolution.Settings := {}
  distribution : Distribution := {}
  concurrency : Nat := 4
  deriving DecidableEq, Inhabited

namespace Settings

def validate (s : Settings) : Except Error Unit :=
  if !s.threshold.isFinite then
    .error (.config ("threshold must be finite, got " ++ s.threshold.text .plain))
  else if s.concurrency = 0 then .error (.config "concurrency must be at least 1")
  else s.distribution.validate

def fieldNames : List String := ["threshold", "evolution", "distribution", "concurrency"]

def read : Reader Settings := fun room j => do
  let r ← Record.readPartial fieldNames room j
  let d : Settings := {}
  let threshold ← r.orDefault "threshold" d.threshold Reader.double
  let evolution ← r.orDefault "evolution" d.evolution Evolution.Settings.read
  let distribution ← r.orDefault "distribution" d.distribution Distribution.read
  let concurrency ← r.orDefault "concurrency" d.concurrency Reader.word
  return { threshold, evolution, distribution, concurrency }

def toJson (s : Settings) : Json := .object
  [("threshold", .ofDouble s.threshold), ("evolution", s.evolution.toJson),
    ("distribution", s.distribution.toJson), ("concurrency", .int s.concurrency)]

def ofText (text : String) : Except Error Settings := do
  match Json.decode read text with
  | some s =>
    s.validate
    return s
  | none => .error .json

end Settings

end Testset

end QuestionSynthesis
