import QuestionSynthesis.Evolution.MultiContext
import QuestionSynthesis.Testset.Row
import QuestionSynthesis.Testset.Settings

/-!
Batches of evolutions. The simple ones come first, then those with two contexts, one after another.
An evolution that fails on content costs its row and is reported; any other failure ends the batch.
Every row that is kept gets an answer written from its contexts.
-/

namespace QuestionSynthesis

namespace Testset

def addRow (t : Testset) (r : TestsetRow) : Testset := { t with rows := t.rows ++ [r] }

def addSkipped (t : Testset) (s : SkippedRow) : Testset := { t with skipped := t.skipped ++ [s] }

def reference {σ : Type} (e : Evolved) : Session σ String := do
  let prompt ← Session.ofExcept <| Template.referenceAnswer.render
    [("question", e.question), ("context", Node.mergeContents e.contexts)]
  let answer ← Session.generateText prompt
  if answer.isEmpty then
    Session.fail (.generation s!"reference answer for '{e.question}' was empty")
  else return answer

inductive Entry where
  | row (r : TestsetRow)
  | skipped (s : SkippedRow)

def add (t : Testset) : Entry → Testset
  | .row r => t.addRow r
  | .skipped s => t.addSkipped s

def job {σ : Type} (settings : Settings) (rounds : Nat) (kind : Evolution.Kind) :
    Session σ Entry := do
  let evolve : Session σ (Except SkippedRow Evolved) := Session.recover
    (Except.ok <$> Evolution.evolve kind ⟨settings.threshold⟩ settings.evolution rounds)
    fun e => if e.isContentFailure then return .error ⟨kind, e.message⟩ else Session.fail e
  match ← evolve with
  | .error skipped => return .skipped skipped
  | .ok e =>
    let answer ← reference e
    return .row (.ofEvolved e answer (← Session.now))

def jobs {σ : Type} (settings : Settings) (rounds : Nat) (kind : Evolution.Kind) :
    Nat → Testset → Session σ Testset
  | 0, t => return t
  | n + 1, t => do
    let entry ← job settings rounds kind
    jobs settings rounds kind n (t.add entry)

structure Generator where
  settings : Settings
  valid : settings.validate = .ok ()

namespace Generator

def new (settings : Settings) : Except Error Generator :=
  match h : settings.validate with
  | .ok () => .ok ⟨settings, h⟩
  | .error e => .error e

/-- Generates a test set of `n` rows, those that were skipped not replaced. -/
def generate {σ : Type} (g : Generator) (rounds n : Nat) : Session σ Testset := do
  let (simple, multiContext) ← Session.ofExcept (g.settings.distribution.counts n)
  let t ← jobs g.settings rounds .simple simple {}
  jobs g.settings rounds .multiContext multiContext t

end Generator

end Testset

end QuestionSynthesis
