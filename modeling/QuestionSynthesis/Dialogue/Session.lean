import QuestionSynthesis.Dialogue.Completion
import QuestionSynthesis.Timestamp

/-!
Working with a graph store and a text service. Both are unknown: what they answer may depend on
everything that was exchanged before, and they may fail. A session keeps the exchanges in order
beside a state of its own, and both survive a failure.
-/

namespace QuestionSynthesis

inductive Exchange where
  | sample (k : Nat) (answer : Except Error (List Node))
  | adjacent (node : NodeId) (direction : Direction) (answer : Except Error (Option Node))
  | similar (node : NodeId) (answer : Except Error (List Node))
  | generate (prompt : String) (n : Nat) (answer : Except Error Completions)

abbrev Trace := List Exchange

structure Store where
  sample : Trace → Nat → Except Error (List Node)
  adjacent : Trace → NodeId → Direction → Except Error (Option Node)
  similar : Trace → NodeId → Except Error (List Node)

structure TextService where
  generate : Trace → String → Nat → Except Error Completions

structure Collaborators where
  store : Store
  service : TextService
  clock : Trace → Timestamp

/-- How a session ends: with a value, with an error, or not within the rounds it was given. -/
inductive Outcome (α : Type) where
  | value (a : α)
  | error (e : Error)
  | unfinished

namespace Outcome

variable {α β : Type}

def ofExcept : Except Error α → Outcome α
  | .ok a => value a
  | .error e => error e

def map (f : α → β) : Outcome α → Outcome β
  | value a => value (f a)
  | error e => error e
  | unfinished => unfinished

end Outcome

def Session (σ α : Type) := Collaborators → σ → Trace → Outcome α × σ × Trace

namespace Session

variable {σ τ α β : Type}

def pure (a : α) : Session σ α := fun _ s t => (.value a, s, t)

def bind (m : Session σ α) (f : α → Session σ β) : Session σ β := fun w s t =>
  match m w s t with
  | (.value a, s, t) => f a w s t
  | (.error e, s, t) => (.error e, s, t)
  | (.unfinished, s, t) => (.unfinished, s, t)

instance : Monad (Session σ) where
  pure := pure
  bind := bind

def fail (e : Error) : Session σ α := fun _ s t => (.error e, s, t)

def giveUp : Session σ α := fun _ s t => (.unfinished, s, t)

def ofExcept (x : Except Error α) : Session σ α := fun _ s t => (.ofExcept x, s, t)

def state : Session σ σ := fun _ s t => (.value s, s, t)

def setState (s : σ) : Session σ Unit := fun _ _ t => (.value (), s, t)

/-- Runs a session on a state of its own. -/
def within (s : τ) (m : Session τ α) : Session σ α := fun w s' t =>
  let (r, _, t) := m w s t
  (r, s', t)

def recover (m : Session σ α) (f : Error → Session σ α) : Session σ α := fun w s t =>
  match m w s t with
  | (.error e, s, t) => f e w s t
  | r => r

def sample (k : Nat) : Session σ (List Node) := fun w s t =>
  let answer := w.store.sample t k
  (.ofExcept answer, s, t ++ [.sample k answer])

def adjacent (node : NodeId) (d : Direction) : Session σ (Option Node) := fun w s t =>
  let answer := w.store.adjacent t node d
  (.ofExcept answer, s, t ++ [.adjacent node d answer])

def similar (node : NodeId) : Session σ (List Node) := fun w s t =>
  let answer := w.store.similar t node
  (.ofExcept answer, s, t ++ [.similar node answer])

def generate (prompt : String) (n : Nat) : Session σ Completions := fun w s t =>
  let answer := w.service.generate t prompt n
  (.ofExcept answer, s, t ++ [.generate prompt n answer])

def now : Session σ Timestamp := fun w s t => (.value (w.clock t), s, t)

def generateText (prompt : String) : Session σ String := do
  let completions ← generate prompt 1
  match completions.firstText? with
  | some text => return text
  | none => fail .noCompletions

def sampleOne : Session σ Node := do
  match ← sample 1 with
  | n :: _ => return n
  | [] => fail (.insufficientNodes 1 0)

end Session

end QuestionSynthesis
