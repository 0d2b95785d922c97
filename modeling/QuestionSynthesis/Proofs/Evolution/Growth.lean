import QuestionSynthesis.Proofs.Evolution.Window

/-!
# Growing a window is all or nothing

A session that makes its calls before it changes anything ends with the error of its last call and
the state it found, or no call has failed (`Session.AllOrNothing`). This passes from one part to the
next as long as only the last part changes the state (`AllOrNothing.bind`). So an expansion that
fails leaves no trace in the attempt, and one that succeeds does what it says and nothing else.
-/

namespace QuestionSynthesis

def Exchange.refusal? : Exchange → Option Error
  | .sample _ (.ok []) => some (.insufficientNodes 1 0)
  | x => x.error?

namespace Session

variable {σ α β : Type}

/-- How a session ends that starts from a state and a history: its last call has failed and the
state is as it was, or no call has failed and the calls, the value and the state meet a condition.
-/
inductive Concluded (s : σ) (t : Trace) (post : Trace → α → σ → Prop) :
    Outcome α × σ × Trace → Prop where
  | failed {before x e} (served : ∀ y ∈ before, y.refusal? = none) (refused : x.refusal? = some e) :
      Concluded s t post (.error e, s, t ++ (before ++ [x]))
  | done {calls a s'} (served : ∀ y ∈ calls, y.refusal? = none) (holds : post calls a s') :
      Concluded s t post (.value a, s', t ++ calls)

def AllOrNothing (m : Session σ α) (s : σ) (post : Trace → α → σ → Prop) : Prop :=
  ∀ w t, Concluded s t post (m w s t)

variable {m : Session σ α} {s s' : σ} {t calls : Trace} {post : Trace → α → σ → Prop}

theorem Concluded.of_refused {x : Exchange} {e : Error} (refused : x.refusal? = some e) :
    Concluded s t post (.error e, s, t ++ [x]) :=
  @Concluded.failed σ α s t post [] x e (by simp) refused

theorem Concluded.of_silent {a : α} (h : post [] a s') : Concluded s t post (.value a, s', t) := by
  have done := @Concluded.done σ α s t post [] a s' (by simp) h
  rwa [List.append_nil] at done

theorem Concluded.after {r : Outcome α × σ × Trace} (served : ∀ y ∈ calls, y.refusal? = none)
    (h : Concluded s (t ++ calls) (fun more => post (calls ++ more)) r) : Concluded s t post r := by
  cases h with
  | failed served' refused =>
    rw [List.append_assoc, ← List.append_assoc calls]
    exact .failed (List.forall_mem_append.mpr ⟨served, served'⟩) refused
  | done served' holds =>
    rw [List.append_assoc]
    exact .done (List.forall_mem_append.mpr ⟨served, served'⟩) holds

namespace AllOrNothing

theorem pure {a : α} (h : post [] a s) : AllOrNothing (Pure.pure a) s post :=
  fun _ _ => .of_silent h

theorem setState {a : α} (h : post [] a s') :
    AllOrNothing (Session.setState s' >>= fun _ => Pure.pure a) s post :=
  fun _ _ => .of_silent h

theorem state {f : σ → Session σ α} (h : AllOrNothing (f s) s post) :
    AllOrNothing (Session.state >>= f) s post :=
  fun w t => h w t

/-- What comes first must leave the state alone, as what comes next may fail. -/
theorem bind {f : α → Session σ β} {post : Trace → β → σ → Prop} {found : Trace → α → Prop}
    (hm : AllOrNothing m s fun calls a s' => s' = s ∧ found calls a)
    (hf : ∀ calls a, found calls a → AllOrNothing (f a) s fun more => post (calls ++ more)) :
    AllOrNothing (m >>= f) s post := by
  intro w t
  have first := hm w t
  generalize hr : m w s t = r at first
  cases first with
  | failed served refused =>
    rw [bind_error hr]
    exact .failed served refused
  | @done calls a s' served holds =>
    obtain ⟨rfl, holds⟩ := holds
    rw [bind_value hr]
    exact (hf calls a holds w (t ++ calls)).after served

theorem map {f : α → β} {post' : Trace → β → σ → Prop} (hm : AllOrNothing m s post)
    (weaken : ∀ calls a s', post calls a s' → post' calls (f a) s') :
    AllOrNothing (m >>= fun a => Pure.pure (f a)) s post' := by
  intro w t
  have first := hm w t
  generalize hr : m w s t = r at first
  cases first with
  | failed served refused =>
    rw [bind_error hr]
    exact .failed served refused
  | done served holds =>
    rw [bind_value hr]
    exact .done served (weaken _ _ _ holds)

theorem adjacent (id : NodeId) (d : Direction) :
    AllOrNothing (Session.adjacent id d : Session σ (Option Node)) s fun calls found s' =>
      s' = s ∧ calls = [.adjacent id d (.ok found)] := by
  intro w t
  simp only [Session.adjacent]
  cases w.store.adjacent t id d with
  | error e => exact .of_refused rfl
  | ok found => exact .done (by simp [Exchange.refusal?, Exchange.error?]) ⟨rfl, rfl⟩

theorem sampleOne :
    AllOrNothing (Session.sampleOne : Session σ Node) s fun calls n s' =>
      s' = s ∧ ∃ more, calls = [.sample 1 (.ok (n :: more))] := by
  intro w t
  rw [sampleOne_run]
  rcases w.store.sample t 1 with e | _ | ⟨n, more⟩
  · exact .of_refused rfl
  · exact .of_refused rfl
  · exact .done (by simp [Exchange.refusal?, Exchange.error?]) ⟨rfl, more, rfl⟩

end AllOrNothing

end Session

namespace Node

theorem mergeContents_cons (n : Node) {nodes : List Node} (h : nodes ≠ []) :
    mergeContents (n :: nodes) = n.content ++ "\n\n" ++ mergeContents nodes := by
  rw [mergeContents, List.map_cons, String.intercalate_cons_of_ne_nil (by simpa using h)]
  rfl

theorem mergeContents_concat {nodes : List Node} (n : Node) (h : nodes ≠ []) :
    mergeContents (nodes ++ [n]) = mergeContents nodes ++ "\n\n" ++ n.content := by
  rw [mergeContents, List.map_append,
    String.intercalate_append_of_ne_nil (by simpa using h) (by simp), List.map_singleton,
    String.intercalate_singleton]
  rfl

end Node

namespace Attempt

structure SameBudgets (a b : Attempt) : Prop where
  tries : b.tries = a.tries
  resamples : b.resamples = a.resamples
  settings : b.settings = a.settings

/-- The window has become what the expansion says, with the node that the last call has found. -/
inductive Grown (a : Attempt) (calls : Trace) : Expansion → Attempt → Prop where
  | prev {n b} (found : calls.getLast? = some (.adjacent a.front.id .prev (.ok (some n))))
      (fresh : n.id ∉ a.ids) (window : b.window = n :: a.window) (root : b.root = a.root)
      (context : b.context = n.content ++ "\n\n" ++ a.context) : Grown a calls (.prev n.id) b
  | next {n b} (found : calls.getLast? = some (.adjacent a.last.id .next (.ok (some n))))
      (fresh : n.id ∉ a.ids) (window : b.window = a.window ++ [n]) (root : b.root = a.root)
      (context : b.context = a.context ++ "\n\n" ++ n.content) : Grown a calls (.next n.id) b
  | resampled {n b more} (found : calls.getLast? = some (.sample 1 (.ok (n :: more))))
      (window : b.window = [n]) (root : b.root = n.id) : Grown a calls (.resampled n.id) b

variable {a b : Attempt} {n : Node} {calls : Trace} {x y : Expansion}

theorem Grown.after (before : Trace) (h : Grown a calls x b) : Grown a (before ++ calls) x b := by
  have last : ∀ {z}, calls.getLast? = some z → (before ++ calls).getLast? = some z := by
    intro z found
    rw [List.getLast?_append, found, Option.some_or]
  cases h with
  | prev found fresh window root context => exact .prev (last found) fresh window root context
  | next found fresh window root context => exact .next (last found) fresh window root context
  | resampled found window root => exact .resampled (last found) window root

theorem prepend_grown (fresh : n.id ∉ a.ids)
    (found : calls.getLast? = some (.adjacent a.front.id .prev (.ok (some n)))) :
    SameBudgets a (a.prepend n) ∧ Grown a calls (.prev n.id) (a.prepend n) :=
  ⟨⟨rfl, rfl, rfl⟩,
    .prev found fresh rfl rfl (Node.mergeContents_cons n (List.cons_ne_nil a.front a.rest))⟩

theorem append_grown (fresh : n.id ∉ a.ids)
    (found : calls.getLast? = some (.adjacent a.last.id .next (.ok (some n)))) :
    SameBudgets a (a.append n) ∧ Grown a calls (.next n.id) (a.append n) :=
  ⟨⟨rfl, rfl, rfl⟩,
    .next found fresh rfl rfl (Node.mergeContents_concat n (List.cons_ne_nil a.front a.rest))⟩

theorem restart_grown {more : List Node}
    (found : calls.getLast? = some (.sample 1 (.ok (n :: more)))) :
    SameBudgets a (a.restart n) ∧ Grown a calls (.resampled n.id) (a.restart n) :=
  ⟨⟨rfl, rfl, rfl⟩, .resampled found rfl rfl⟩

theorem Grown.unique {calls' : Trace} (h : Grown a calls x b) (h' : Grown a calls' y b) :
    x = y := by
  have known : a.front.id ∈ a.ids := List.mem_cons_self
  cases h with
  | @prev n b found fresh window root context =>
    cases h' with
    | prev found' fresh' window' =>
      rw [(List.cons.inj (window.symm.trans window')).1]
    | next found' fresh' window' =>
      have front : n = a.front := (List.cons.inj (window.symm.trans window')).1
      exact absurd (front ▸ known) fresh
    | resampled found' window' => cases window.symm.trans window'
  | @next n b found fresh window root context =>
    cases h' with
    | @prev n' b found' fresh' window' =>
      have front : n' = a.front := (List.cons.inj (window'.symm.trans window)).1
      exact absurd (front ▸ known) fresh'
    | next found' fresh' window' =>
      have last := List.append_cancel_left (window.symm.trans window')
      rw [(List.cons.inj last).1]
    | resampled found' window' =>
      have tail := (List.cons.inj (window.symm.trans window')).2
      simp at tail
  | resampled found window root =>
    cases h' with
    | prev found' fresh' window' => cases window'.symm.trans window
    | next found' fresh' window' =>
      have tail := (List.cons.inj (window'.symm.trans window)).2
      simp at tail
    | resampled found' window' => rw [(List.cons.inj (window.symm.trans window')).1]

open Session (AllOrNothing Concluded)

theorem newNeighbour_allOrNothing (a : Attempt) (id : NodeId) (d : Direction) :
    AllOrNothing (newNeighbour id d) a fun calls found b =>
      b = a ∧ ∃ answer, calls = [.adjacent id d (.ok answer)] ∧
        ∀ n ∈ found, answer = some n ∧ n.id ∉ a.ids := by
  refine .bind (.adjacent id d) ?_
  rintro calls answer rfl
  refine .state (.pure ⟨rfl, answer, rfl, fun n hn => ?_⟩)
  obtain ⟨rfl, fresh⟩ := Option.mem_filter_iff.mp hn
  exact ⟨rfl, contains_eq_false_iff.mp (by simpa using fresh)⟩

theorem resample_allOrNothing (a : Attempt) :
    AllOrNothing resample a fun calls id b =>
      SameBudgets a b ∧ Grown a calls (.resampled id) b := by
  refine .bind .sampleOne ?_
  rintro calls n ⟨more, rfl⟩
  exact .state (.setState (restart_grown rfl))

theorem expand_allOrNothing (a : Attempt) :
    AllOrNothing expand a fun calls x b => SameBudgets a b ∧ Grown a calls x b := by
  refine .state (.bind (newNeighbour_allOrNothing a a.front.id .prev) ?_)
  rintro calls (_ | n) ⟨answer, rfl, new⟩
  case some =>
    obtain ⟨rfl, fresh⟩ := new n rfl
    exact .setState (prepend_grown fresh rfl)
  case none =>
    refine .bind (newNeighbour_allOrNothing a a.last.id .next) ?_
    rintro calls (_ | n) ⟨answer', rfl, new'⟩
    case some =>
      obtain ⟨rfl, fresh⟩ := new' n rfl
      exact .setState (append_grown fresh rfl)
    case none =>
      exact .map (resample_allOrNothing a) fun calls id b h => ⟨h.1, (h.2.after _).after _⟩

/-- An expansion fails only with the error of its last call, and then nothing has changed; so does a
resampling. One that succeeds leaves the counters alone, and what it answers is what has become of
the window. -/
theorem expand_all_or_nothing (w : Collaborators) (a : Attempt) (t : Trace) :
    Concluded a t (fun calls x b => SameBudgets a b ∧ Grown a calls x b ∧
      ∀ calls' y, Grown a calls' y b → y = x) (expand w a t) ∧
    Concluded a t (fun calls id b => SameBudgets a b ∧ Grown a calls (.resampled id) b)
      (resample w a t) := by
  refine ⟨?_, resample_allOrNothing a w t⟩
  have h := expand_allOrNothing a w t
  generalize expand w a t = r at h ⊢
  cases h with
  | failed served refused => exact .failed served refused
  | done served holds =>
    obtain ⟨kept, grown⟩ := holds
    exact .done served ⟨kept, grown, fun _ _ other => other.unique grown⟩

end Attempt

end QuestionSynthesis
