import QuestionSynthesis.Proofs.Dialogue.Exchange

/-!
# Calls as functions of their answers

What a call comes to is decided by the one answer that it gets, and a session continues with it
where the call left the trace. These are the equations by which sessions are run in proofs.
-/

namespace QuestionSynthesis

namespace Session

variable {σ τ α β : Type}

theorem bind_value {m : Session σ α} {f : α → Session σ β} {w : Collaborators} {s s' : σ}
    {t t' : Trace} {a : α} (h : m w s t = (.value a, s', t')) : (m >>= f) w s t = f a w s' t' := by
  change Session.bind m f w s t = _
  simp only [Session.bind, h]

theorem bind_error {m : Session σ α} {f : α → Session σ β} {w : Collaborators} {s s' : σ}
    {t t' : Trace} {e : Error} (h : m w s t = (.error e, s', t')) :
    (m >>= f) w s t = (.error e, s', t') := by
  change Session.bind m f w s t = _
  simp only [Session.bind, h]

theorem bind_unfinished {m : Session σ α} {f : α → Session σ β} {w : Collaborators} {s s' : σ}
    {t t' : Trace} (h : m w s t = (.unfinished, s', t')) :
    (m >>= f) w s t = (.unfinished, s', t') := by
  change Session.bind m f w s t = _
  simp only [Session.bind, h]

@[simp] theorem state_bind (f : σ → Session σ β) (w : Collaborators) (s : σ) (t : Trace) :
    (state >>= f) w s t = f s w s t := rfl

@[simp] theorem setState_bind (s' : σ) (f : Unit → Session σ β) (w : Collaborators) (s : σ)
    (t : Trace) : (setState s' >>= f) w s t = f () w s' t := rfl

@[simp] theorem ofExcept_ok_bind (a : α) (f : α → Session σ β) (w : Collaborators) (s : σ)
    (t : Trace) : (ofExcept (.ok a) >>= f) w s t = f a w s t := rfl

theorem within_run (s : τ) (m : Session τ α) (w : Collaborators) (s' : σ) (t : Trace) :
    within s m w s' t = ((m w s t).1, s', (m w s t).2.2) := rfl

def firstNode : Except Error (List Node) → Except Error Node
  | .ok (n :: _) => .ok n
  | .ok [] => .error (.insufficientNodes 1 0)
  | .error e => .error e

def firstText : Except Error Completions → Except Error String
  | .ok completions =>
    match completions.firstText? with
    | some text => .ok text
    | none => .error .noCompletions
  | .error e => .error e

theorem error_of_firstNode {answer : Except Error (List Node)} {e : Error}
    (h : firstNode answer = .error e) :
    answer = .error e ∨ answer = .ok [] ∧ e = .insufficientNodes 1 0 := by
  rcases answer with e' | _ | ⟨n, more⟩
  · exact .inl (congrArg Except.error (Except.error.inj h))
  · exact .inr ⟨rfl, (Except.error.inj h).symm⟩
  · cases h

theorem error_of_firstText {answer : Except Error Completions} {e : Error}
    (h : firstText answer = .error e) :
    answer = .error e ∨
      ∃ completions, answer = .ok completions ∧ completions.firstText? = none ∧
        e = .noCompletions := by
  cases answer with
  | error e' => exact .inl (congrArg Except.error (Except.error.inj h))
  | ok completions =>
    simp only [firstText] at h
    cases ht : completions.firstText? with
    | some text => simp [ht] at h
    | none =>
      rw [ht] at h
      exact .inr ⟨completions, rfl, ht, (Except.error.inj h).symm⟩

theorem sampleOne_run (w : Collaborators) (s : σ) (t : Trace) :
    (sampleOne : Session σ Node) w s t =
      (.ofExcept (firstNode (w.store.sample t 1)), s,
        t ++ [.sample 1 (w.store.sample t 1)]) := by
  have h : (sample 1 : Session σ (List Node)) w s t =
      (.ofExcept (w.store.sample t 1), s, t ++ [.sample 1 (w.store.sample t 1)]) := rfl
  generalize w.store.sample t 1 = answer at h ⊢
  cases answer with
  | error e => exact bind_error h
  | ok nodes => cases nodes <;> exact bind_value h

theorem generateText_run (prompt : String) (w : Collaborators) (s : σ) (t : Trace) :
    (generateText prompt : Session σ String) w s t =
      (.ofExcept (firstText (w.service.generate t prompt 1)), s,
        t ++ [.generate prompt 1 (w.service.generate t prompt 1)]) := by
  have h : (generate prompt 1 : Session σ Completions) w s t =
      (.ofExcept (w.service.generate t prompt 1), s,
        t ++ [.generate prompt 1 (w.service.generate t prompt 1)]) := rfl
  generalize w.service.generate t prompt 1 = answer at h ⊢
  cases answer with
  | error e => exact bind_error h
  | ok completions =>
    refine (bind_value h).trans ?_
    simp only [firstText]
    cases completions.firstText? <;> rfl

theorem text?_of_firstText {prompt reply : String} {n : Nat} {answer : Except Error Completions}
    (h : firstText answer = .ok reply) :
    (Exchange.generate prompt n answer).text? = some reply := by
  cases answer with
  | error e => cases h
  | ok completions =>
    simp only [firstText] at h
    cases ht : completions.firstText? with
    | none => simp [ht] at h
    | some text =>
      simp only [ht, Except.ok.injEq] at h
      simpa [Exchange.text?, h] using ht

end Session

def Outcome.error? {α : Type} : Outcome α → Option Error
  | .error e => some e
  | _ => none

def Outcome.any {α : Type} (p : α → Bool) : Outcome α → Bool
  | .value a => p a
  | _ => false

/-- Collaborators that know one node without neighbours. The service answers the exchange of each
number with the text at that place, and with nothing beyond the last one. -/
def Collaborators.scripted (n : Node) (replies : List String) : Collaborators where
  store := {
    sample := fun _ _ => .ok [n]
    adjacent := fun _ _ _ => .ok none
    similar := fun _ _ => .ok [] }
  service := { generate := fun t _ _ => .ok (.single (replies.getD t.length "")) }
  clock := fun _ => default

end QuestionSynthesis
