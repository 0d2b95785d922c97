import QuestionSynthesis.Proofs.Dialogue.Calls

/-!
# Histories and the collaborators they come from

Whatever a session does, the exchanges that it adds to a history are the answers that the
collaborators give at that point of it (`Session.Records`). The property passes from the parts of a
session to the whole, so it holds of every program that only makes calls.
-/

namespace QuestionSynthesis

def Exchange.AnsweredBy (w : Collaborators) (t : Trace) : Exchange → Prop
  | .sample k answer => answer = w.store.sample t k
  | .adjacent id d answer => answer = w.store.adjacent t id d
  | .similar id answer => answer = w.store.similar t id
  | .generate prompt n answer => answer = w.service.generate t prompt n

def Trace.AnsweredBy (w : Collaborators) : Trace → Trace → Prop
  | _, [] => True
  | t, x :: calls => x.AnsweredBy w t ∧ AnsweredBy w (t ++ [x]) calls

theorem Trace.answeredBy_append {w : Collaborators} {t before after : Trace} :
    AnsweredBy w t (before ++ after) ↔
      AnsweredBy w t before ∧ AnsweredBy w (t ++ before) after := by
  induction before generalizing t with
  | nil => simp [AnsweredBy]
  | cons x before ih => simp [AnsweredBy, ih, and_assoc]

theorem Trace.answeredBy_singleton {w : Collaborators} {t : Trace} {x : Exchange} :
    AnsweredBy w t [x] ↔ x.AnsweredBy w t := by
  simp [AnsweredBy]

namespace Session

variable {σ τ α β : Type}

def Records (m : Session σ α) : Prop :=
  ∀ w s t, ∃ calls, (m w s t).2.2 = t ++ calls ∧ Trace.AnsweredBy w t calls

namespace Records

theorem of_silent {m : Session σ α} (h : ∀ w s t, (m w s t).2.2 = t) : Records m :=
  fun w s t => ⟨[], by rw [h, List.append_nil], trivial⟩

theorem of_call {m : Session σ α} {x : Collaborators → Trace → Exchange}
    (h : ∀ w s t, (m w s t).2.2 = t ++ [x w t]) (answered : ∀ w t, (x w t).AnsweredBy w t) :
    Records m :=
  fun w s t => ⟨[x w t], h w s t, Trace.answeredBy_singleton.mpr (answered w t)⟩

theorem bind {m : Session σ α} {f : α → Session σ β} (hm : Records m) (hf : ∀ a, Records (f a)) :
    Records (m >>= f) := by
  intro w s t
  obtain ⟨calls, htrace, answered⟩ := hm w s t
  cases hrun : m w s t with
  | mk outcome rest =>
    obtain ⟨s', t'⟩ := rest
    rw [hrun] at htrace
    obtain rfl : t' = t ++ calls := htrace
    cases outcome with
    | value a =>
      obtain ⟨more, htrace', answered'⟩ := hf a w s' (t ++ calls)
      rw [bind_value hrun, htrace', List.append_assoc]
      exact ⟨calls ++ more, rfl, Trace.answeredBy_append.mpr ⟨answered, answered'⟩⟩
    | error e =>
      rw [bind_error hrun]
      exact ⟨calls, rfl, answered⟩
    | unfinished =>
      rw [bind_unfinished hrun]
      exact ⟨calls, rfl, answered⟩

theorem within {m : Session τ α} (s : τ) (h : Records m) :
    Records (Session.within s m : Session σ α) := by
  intro w s' t
  rw [within_run]
  exact h w s t

theorem pure (a : α) : Records (Pure.pure a : Session σ α) := of_silent fun _ _ _ => rfl

theorem fail (e : Error) : Records (Session.fail e : Session σ α) := of_silent fun _ _ _ => rfl

theorem giveUp : Records (Session.giveUp : Session σ α) := of_silent fun _ _ _ => rfl

theorem ofExcept (x : Except Error α) : Records (Session.ofExcept x : Session σ α) :=
  of_silent fun _ _ _ => rfl

theorem state : Records (Session.state : Session σ σ) := of_silent fun _ _ _ => rfl

theorem setState (s : σ) : Records (Session.setState s) := of_silent fun _ _ _ => rfl

theorem sample (k : Nat) : Records (Session.sample k : Session σ (List Node)) :=
  of_call (fun _ _ _ => rfl) fun _ _ => rfl

theorem adjacent (id : NodeId) (d : Direction) :
    Records (Session.adjacent id d : Session σ (Option Node)) :=
  of_call (fun _ _ _ => rfl) fun _ _ => rfl

theorem generate (prompt : String) (n : Nat) :
    Records (Session.generate prompt n : Session σ Completions) :=
  of_call (fun _ _ _ => rfl) fun _ _ => rfl

theorem sampleOne : Records (Session.sampleOne : Session σ Node) := by
  refine (sample 1).bind fun nodes => ?_
  cases nodes with
  | nil => exact fail _
  | cons n more => exact pure n

theorem generateText (prompt : String) :
    Records (Session.generateText prompt : Session σ String) := by
  refine (generate prompt 1).bind fun completions => ?_
  cases completions.firstText? with
  | none => exact fail _
  | some text => exact pure text

end Records

end Session

end QuestionSynthesis
