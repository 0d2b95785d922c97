import QuestionSynthesis.Evolution.Attempt
import QuestionSynthesis.Proofs.Dialogue.Calls

/-!
# The operations of an attempt

Each operation on the window or the counters is a function of the attempt and of the answers that it
gets. A rejection within its budget only counts; one beyond it fails with the number it has reached.
-/

namespace QuestionSynthesis

namespace Attempt

def prepend (a : Attempt) (n : Node) : Attempt := { a with front := n, rest := a.window }

def append (a : Attempt) (n : Node) : Attempt := { a with rest := a.rest ++ [n] }

def restart (a : Attempt) (n : Node) : Attempt := { a with front := n, rest := [], root := n.id }

def countNode (a : Attempt) : Attempt := { a with resamples := a.resamples + 1 }

def countQuestion (a : Attempt) : Attempt := { a with tries := a.tries + 1 }

@[simp] theorem append_window (a : Attempt) (n : Node) : (a.append n).window = a.window ++ [n] :=
  rfl

def Rooted (a : Attempt) : Prop := a.root ∈ a.window.map Node.id

theorem on_rooted (n : Node) (settings : Evolution.Settings) : (on n settings).Rooted := by
  simp [Rooted, on, window]

theorem Rooted.prepend {a : Attempt} (h : a.Rooted) (n : Node) : (a.prepend n).Rooted :=
  List.mem_cons_of_mem _ h

theorem Rooted.append {a : Attempt} (h : a.Rooted) (n : Node) : (a.append n).Rooted := by
  simp only [Rooted, append_window, List.map_append]
  exact List.mem_append_left _ h

theorem restart_rooted (a : Attempt) (n : Node) : (a.restart n).Rooted := by
  simp [Rooted, restart, window]

variable {w : Collaborators} {t : Trace}

theorem start_ok {σ : Type} {s : σ} {settings : Evolution.Settings} {n : Node}
    (h : Session.firstNode (w.store.sample t 1) = .ok n) :
    start settings w s t = (.value (on n settings), s, t ++ [.sample 1 (w.store.sample t 1)]) := by
  have hs := Session.sampleOne_run w s t
  rw [h] at hs
  exact Session.bind_value hs

theorem start_error {σ : Type} {s : σ} {settings : Evolution.Settings} {e : Error}
    (h : Session.firstNode (w.store.sample t 1) = .error e) :
    start settings w s t = (.error e, s, t ++ [.sample 1 (w.store.sample t 1)]) := by
  have hs := Session.sampleOne_run w s t
  rw [h] at hs
  exact Session.bind_error hs

theorem resample_ok {a : Attempt} {n : Node}
    (h : Session.firstNode (w.store.sample t 1) = .ok n) :
    resample w a t = (.value n.id, a.restart n, t ++ [.sample 1 (w.store.sample t 1)]) := by
  have hs := Session.sampleOne_run w a t
  rw [h] at hs
  exact Session.bind_value hs

theorem resample_error {a : Attempt} {e : Error}
    (h : Session.firstNode (w.store.sample t 1) = .error e) :
    resample w a t = (.error e, a, t ++ [.sample 1 (w.store.sample t 1)]) := by
  have hs := Session.sampleOne_run w a t
  rw [h] at hs
  exact Session.bind_error hs

theorem room_or_spent (a : Attempt) : (∀ max ∈ a.settings.maxResamples, a.resamples < max) ∨
    ∃ max, a.settings.maxResamples = some max ∧ max ≤ a.resamples := by
  cases hm : a.settings.maxResamples with
  | none => exact .inl (by simp)
  | some max =>
    rcases Nat.lt_or_ge a.resamples max with h | h
    · exact .inl (by simpa using h)
    · exact .inr ⟨max, rfl, h⟩

theorem rejectNode_of_room {a : Attempt}
    (room : ∀ max ∈ a.settings.maxResamples, a.resamples < max) :
    rejectNode w a t = (.value (), a.countNode, t) := by
  simp only [rejectNode, Session.state_bind, Session.setState_bind]
  cases hm : a.settings.maxResamples with
  | none => rfl
  | some max =>
    have hroom : ¬ max < a.resamples + 1 := by have := room max hm; omega
    simp only [hroom, if_false]
    rfl

theorem rejectNode_of_spent {a : Attempt} {max : Nat} (hm : a.settings.maxResamples = some max)
    (spent : max ≤ a.resamples) :
    rejectNode w a t = (.error (.resamplesExhausted (a.resamples + 1)), a.countNode, t) := by
  have hspent : max < a.resamples + 1 := by omega
  simp only [rejectNode, Session.state_bind, Session.setState_bind, hm, hspent, if_true]
  rfl

theorem rejectQuestion_of_room {a : Attempt} (room : a.tries < a.settings.maxTries) :
    rejectQuestion w a t = (.value (), a.countQuestion, t) := by
  have hroom : ¬ a.settings.maxTries < a.tries + 1 := by omega
  simp only [rejectQuestion, Session.state_bind, Session.setState_bind, hroom, if_false]
  rfl

theorem rejectQuestion_of_spent {a : Attempt} (spent : a.settings.maxTries ≤ a.tries) :
    rejectQuestion w a t =
      (.error (.retriesExhausted (a.tries + 1) a.settings.maxTries), a.countQuestion, t) := by
  have hspent : a.settings.maxTries < a.tries + 1 := by omega
  simp only [rejectQuestion, Session.state_bind, Session.setState_bind, hspent, if_true]
  rfl

theorem newNeighbour_ok {a : Attempt} {id : NodeId} {d : Direction} {found : Option Node}
    (h : w.store.adjacent t id d = .ok found) :
    newNeighbour id d w a t =
      (.value (found.filter fun n => !a.contains n.id), a,
        t ++ [.adjacent id d (.ok found)]) := by
  have hs : (Session.adjacent id d : Session Attempt (Option Node)) w a t =
      (.value found, a, t ++ [.adjacent id d (.ok found)]) := by
    simp [Session.adjacent, h, Outcome.ofExcept]
  exact Session.bind_value hs

theorem newNeighbour_error {a : Attempt} {id : NodeId} {d : Direction} {e : Error}
    (h : w.store.adjacent t id d = .error e) :
    newNeighbour id d w a t = (.error e, a, t ++ [.adjacent id d (.error e)]) := by
  have hs : (Session.adjacent id d : Session Attempt (Option Node)) w a t =
      (.error e, a, t ++ [.adjacent id d (.error e)]) := by
    simp [Session.adjacent, h, Outcome.ofExcept]
  exact Session.bind_error hs

theorem newNeighbour_fresh {a : Attempt} {id : NodeId} {d : Direction} {n : Node}
    (h : w.store.adjacent t id d = .ok (some n)) (fresh : a.contains n.id = false) :
    newNeighbour id d w a t = (.value (some n), a, t ++ [.adjacent id d (.ok (some n))]) := by
  rw [newNeighbour_ok h]
  simp [fresh]

theorem newNeighbour_known {a : Attempt} {id : NodeId} {d : Direction} {found : Option Node}
    (h : w.store.adjacent t id d = .ok found) (known : ∀ n ∈ found, a.contains n.id = true) :
    newNeighbour id d w a t = (.value none, a, t ++ [.adjacent id d (.ok found)]) := by
  have hnone : found.filter (fun n => !a.contains n.id) = none := by
    simpa [Option.filter_eq_none_iff] using known
  rw [newNeighbour_ok h, hnone]

theorem fresh_or_known (a : Attempt) (found : Option Node) :
    (∃ n, found = some n ∧ a.contains n.id = false) ∨ ∀ n ∈ found, a.contains n.id = true := by
  cases found with
  | none => exact .inr (by simp)
  | some n =>
    cases h : a.contains n.id with
    | false => exact .inl ⟨n, rfl, h⟩
    | true => exact .inr (by simpa using h)

section

variable {a : Attempt} {n : Node} {found found' : Option Node} {e : Error}

theorem expand_of_error (before : w.store.adjacent t a.front.id .prev = .error e) :
    expand w a t = (.error e, a, t ++ [.adjacent a.front.id .prev (.error e)]) := by
  simp only [expand, Session.state_bind]
  exact Session.bind_error (newNeighbour_error before)

theorem expand_of_prev (before : w.store.adjacent t a.front.id .prev = .ok (some n))
    (fresh : a.contains n.id = false) :
    expand w a t =
      (.value (.prev n.id), a.prepend n, t ++ [.adjacent a.front.id .prev (.ok (some n))]) := by
  simp only [expand, Session.state_bind]
  exact Session.bind_value (newNeighbour_fresh before fresh)

theorem expand_of_no_prev (before : w.store.adjacent t a.front.id .prev = .ok found)
    (known : ∀ n ∈ found, a.contains n.id = true) :
    expand w a t =
      (do
        match ← newNeighbour a.last.id .next with
        | some n =>
          Session.setState { a with rest := a.rest ++ [n] }
          return .next n.id
        | none => return .resampled (← resample) : Session Attempt Expansion) w a
        (t ++ [.adjacent a.front.id .prev (.ok found)]) := by
  simp only [expand, Session.state_bind]
  exact Session.bind_value (newNeighbour_known before known)

theorem expand_of_next_error (before : w.store.adjacent t a.front.id .prev = .ok found)
    (known : ∀ n ∈ found, a.contains n.id = true)
    (after : w.store.adjacent (t ++ [.adjacent a.front.id .prev (.ok found)]) a.last.id .next =
      .error e) :
    expand w a t =
      (.error e, a, t ++ [.adjacent a.front.id .prev (.ok found)] ++
        [.adjacent a.last.id .next (.error e)]) := by
  rw [expand_of_no_prev before known]
  exact Session.bind_error (newNeighbour_error after)

theorem expand_of_next (before : w.store.adjacent t a.front.id .prev = .ok found)
    (known : ∀ n ∈ found, a.contains n.id = true)
    (after : w.store.adjacent (t ++ [.adjacent a.front.id .prev (.ok found)]) a.last.id .next =
      .ok (some n)) (fresh : a.contains n.id = false) :
    expand w a t =
      (.value (.next n.id), a.append n, t ++ [.adjacent a.front.id .prev (.ok found)] ++
        [.adjacent a.last.id .next (.ok (some n))]) := by
  rw [expand_of_no_prev before known]
  exact Session.bind_value (newNeighbour_fresh after fresh)

theorem expand_of_none (before : w.store.adjacent t a.front.id .prev = .ok found)
    (known : ∀ n ∈ found, a.contains n.id = true)
    (after : w.store.adjacent (t ++ [.adjacent a.front.id .prev (.ok found)]) a.last.id .next =
      .ok found') (known' : ∀ n ∈ found', a.contains n.id = true) :
    expand w a t =
      (do return .resampled (← resample) : Session Attempt Expansion) w a
        (t ++ [.adjacent a.front.id .prev (.ok found)] ++
          [.adjacent a.last.id .next (.ok found')]) := by
  rw [expand_of_no_prev before known]
  exact Session.bind_value (newNeighbour_known after known')

end

end Attempt

end QuestionSynthesis
