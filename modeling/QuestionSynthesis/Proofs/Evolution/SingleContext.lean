import QuestionSynthesis.Proofs.Evolution.Course

/-!
# A run keeps to its course

Every part of a run, started at a stage, makes calls that lead to the stage where the next part
begins, or end the run there. Put together, all calls of an evolution about one window follow the
course from its opening (`singleContext_keeps`), and a run that was given too few rounds has
rejected something in each of them.
-/

namespace QuestionSynthesis

open Evolution (Stage Path Ended Step Ends)
open Evolution.Stage (Makes)
open Session (firstNode firstText)

namespace Evolution

variable {f : NodeFilter} {w : Collaborators} {t : Trace} {α β : Type}

theorem ends_of_firstText {q : Stage} {prompt : String} {answer : Except Error Completions}
    {e : Error} (made : Makes q (.generate prompt 1 answer)) (h : firstText answer = .error e) :
    Ends f q (.generate prompt 1 answer) (.error e) := by
  obtain rfl | ⟨completions, rfl, none, rfl⟩ := Session.error_of_firstText h
  · exact .failed made rfl
  · exact .noCompletion made none

theorem ends_of_firstNode {q : Stage} {answer : Except Error (List Node)} {e : Error}
    (made : Makes q (.sample 1 answer)) (h : firstNode answer = .error e) :
    Ends f q (.sample 1 answer) (.error e) := by
  obtain rfl | ⟨rfl, rfl⟩ := Session.error_of_firstNode h
  · exact .failed made rfl
  · exact .noNode made

theorem sample_of_firstNode {answer : Except Error (List Node)} {n : Node}
    (h : firstNode answer = .ok n) : ∃ more, answer = .ok (n :: more) := by
  rcases answer with e | _ | ⟨m, more⟩
  · simp [firstNode] at h
  · simp [firstNode] at h
  · obtain rfl : m = n := by simpa [firstNode] using h
    exact ⟨more, rfl⟩

/-- A part of a run that starts at a stage arrives somewhere by its calls, or they end the run. -/
def Keeps (f : NodeFilter) (q : Stage) (t : Trace) (arrives : α → Attempt → Trace → Prop)
    (run : Outcome α × Attempt × Trace) : Prop :=
  ∃ calls, run.2.2 = t ++ calls ∧
    match run.1 with
    | .value v => arrives v run.2.1 calls
    | .error e => Ended f q calls (.error e)
    | .unfinished => False

theorem Keeps.after {q q' : Stage} {calls : Trace} {arrives arrives' : α → Attempt → Trace → Prop}
    {run : Outcome α × Attempt × Trace} (path : Path f q calls q')
    (h : Keeps f q' (t ++ calls) arrives run)
    (mono : ∀ v a more, arrives v a more → arrives' v a (calls ++ more)) :
    Keeps f q t arrives' run := by
  obtain ⟨more, htrace, hend⟩ := h
  refine ⟨calls ++ more, by rw [htrace, List.append_assoc], ?_⟩
  split at hend
  · exact mono _ _ _ hend
  · exact path.ended hend
  · exact hend

theorem Keeps.bind {q : Stage} {a : Attempt} {m : Session Attempt α} {k : α → Session Attempt β}
    {arrives : α → Attempt → Trace → Prop} {arrives' : β → Attempt → Trace → Prop}
    (h : Keeps f q t arrives (m w a t))
    (next : ∀ v a' calls, arrives v a' calls → Keeps f q t arrives' (k v w a' (t ++ calls))) :
    Keeps f q t arrives' ((m >>= k) w a t) := by
  obtain ⟨calls, htrace, hend⟩ := h
  rcases hm : m w a t with ⟨outcome, a', t'⟩
  rw [hm] at htrace hend
  obtain rfl : t' = t ++ calls := htrace
  cases outcome with
  | value v => rw [Session.bind_value hm]; exact next v a' calls hend
  | error e => rw [Session.bind_error hm]; exact ⟨calls, rfl, hend⟩
  | unfinished => exact hend.elim

theorem Keeps.of_ends {q : Stage} {x : Exchange} {e : Error} {a : Attempt}
    {arrives : α → Attempt → Trace → Prop} (ends : Ends f q x (.error e)) :
    Keeps f q t arrives (.error e, a, t ++ [x]) :=
  ⟨[x], rfl, ends.ended⟩

def Reopened (f : NodeFilter) (q : Stage) (a a' : Attempt) (calls : Trace) : Prop :=
  Path f q calls (.scoring a') ∧ a'.tries = a.tries ∧ a'.resamples = a.resamples

theorem Reopened.after {q q' : Stage} {a a' : Attempt} {calls more : Trace}
    (path : Path f q calls q') (h : Reopened f q' a a' more) : Reopened f q a a' (calls ++ more) :=
  ⟨path.append h.1, h.2⟩

theorem resample_keeps {q : Stage} {a : Attempt}
    (made : ∀ answer, Makes q (.sample 1 answer))
    (leads : ∀ n more, Step f q (.sample 1 (.ok (n :: more))) (.scoring (a.restart n))) :
    Keeps f q t (fun _ a' => Reopened f q a a') (Attempt.resample w a t) := by
  cases h : firstNode (w.store.sample t 1) with
  | error e =>
    rw [Attempt.resample_error h]
    exact .of_ends (ends_of_firstNode (made _) h)
  | ok n =>
    rw [Attempt.resample_ok h]
    obtain ⟨more, hs⟩ := sample_of_firstNode h
    rw [hs]
    exact ⟨_, rfl, .single (leads n more), rfl, rfl⟩

def Searched (q : Stage) (a : Attempt) (id : NodeId) (d : Direction) (fresh : Option Node)
    (a' : Attempt) (calls : Trace) : Prop :=
  a' = a ∧ ∃ found, calls = [.adjacent id d (.ok found)] ∧ Makes q (.adjacent id d (.ok found)) ∧
    fresh = found.filter fun n => !a.contains n.id

theorem newNeighbour_keeps {q : Stage} {a : Attempt} {id : NodeId} {d : Direction}
    (made : ∀ answer, Makes q (.adjacent id d answer)) :
    Keeps f q t (Searched q a id d) (Attempt.newNeighbour id d w a t) := by
  cases h : w.store.adjacent t id d with
  | error e =>
    rw [Attempt.newNeighbour_error h]
    exact .of_ends (.failed (made _) rfl)
  | ok found =>
    rw [Attempt.newNeighbour_ok h]
    exact ⟨_, rfl, rfl, found, rfl, made _, rfl⟩

theorem expand_keeps (a : Attempt) :
    Keeps f (.lookingBack a) t (fun _ a' => Reopened f (.lookingBack a) a a')
      (Attempt.expand w a t) := by
  simp only [Attempt.expand, Session.state_bind]
  refine (newNeighbour_keeps fun _ => .lookingBack).bind ?_
  rintro before a _ ⟨rfl, found, rfl, -, hb⟩
  cases before with
  | some n =>
    obtain ⟨rfl, hn⟩ := Option.filter_eq_some_iff.mp hb.symm
    exact ⟨_, rfl, .single (.grewBack (by simpa using hn)), rfl, rfl⟩
  | none =>
    have known := Option.filter_eq_none_iff.mp hb.symm
    have path := Path.single (f := f) (Step.nothingBefore (a := a) (by simpa using known))
    refine Keeps.after path ?_ fun _ _ _ h => Reopened.after path h
    refine (newNeighbour_keeps fun _ => .lookingAhead).bind ?_
    rintro next a _ ⟨rfl, found', rfl, -, ha⟩
    cases next with
    | some n =>
      obtain ⟨rfl, hn⟩ := Option.filter_eq_some_iff.mp ha.symm
      exact ⟨_, rfl, .single (.grewAhead (by simpa using hn)), rfl, rfl⟩
    | none =>
      have known' := Option.filter_eq_none_iff.mp ha.symm
      have path' := Path.single (f := f) (Step.nothingAfter (a := a) (by simpa using known'))
      refine Keeps.after path' ?_ fun _ _ _ h => Reopened.after path' h
      refine (resample_keeps (fun _ => .startingOver) fun _ _ => .startedOver).bind ?_
      exact fun _ _ calls h => ⟨calls, rfl, h⟩

def Replied (q : Stage) (a : Attempt) (reply : String) (a' : Attempt) (calls : Trace) : Prop :=
  a' = a ∧ ∃ x, calls = [x] ∧ Makes q x ∧ x.text? = some reply

theorem generateText_keeps {q : Stage} {a : Attempt} {prompt : String}
    (made : ∀ answer, Makes q (.generate prompt 1 answer)) :
    Keeps f q t (Replied q a) (Session.generateText prompt w a t) := by
  rw [Session.generateText_run]
  cases h : firstText (w.service.generate t prompt 1) with
  | error e => exact .of_ends (ends_of_firstText (made _) h)
  | ok reply => exact ⟨_, rfl, rfl, _, rfl, made _, Session.text?_of_firstText h⟩

theorem nodeFilter_keeps (a : Attempt) :
    Keeps f (.scoring a) t
      (fun v a' calls => ∃ reply, v.passed = f.passes reply ∧ Replied (.scoring a) a reply a' calls)
      (f.evaluate a.front w a t) := by
  obtain ⟨prompt, hp⟩ := Template.contextScoring.render_of_inputs
    [("context", a.front.content)] rfl
  simp only [NodeFilter.evaluate, hp, Session.ofExcept_ok_bind]
  refine (generateText_keeps fun _ => .scoring hp).bind ?_
  exact fun reply _ calls h => ⟨calls, rfl, reply, rfl, h⟩

theorem seed_keeps (a : Attempt) :
    Keeps f (.seeding a) t (Replied (.seeding a) a) (SingleContext.seed w a t) := by
  obtain ⟨prompt, hp⟩ := Template.seedQuestion.render_of_inputs
    [("context", a.context), ("style", a.settings.style.describe),
      ("length", a.settings.length.describe)] rfl
  simp only [SingleContext.seed, Session.state_bind, hp, Session.ofExcept_ok_bind]
  exact generateText_keeps fun _ => .seeding hp

theorem questionFilter_keeps (a : Attempt) (question : String) :
    Keeps f (.judging a question) t
      (fun accepted a' calls => ∃ reply, accepted = QuestionFilter.passes reply ∧
        Replied (.judging a question) a reply a' calls)
      (QuestionFilter.evaluate question w a t) := by
  obtain ⟨prompt, hp⟩ := Template.filterQuestion.render_of_inputs
    [("question", question)] rfl
  simp only [QuestionFilter.evaluate, hp, Session.ofExcept_ok_bind]
  refine (generateText_keeps fun _ => .judging hp).bind ?_
  exact fun reply _ calls h => ⟨calls, rfl, reply, rfl, h⟩

def Settled (f : NodeFilter) (q : Stage) (a : Attempt) :
    SingleContext.Round → Attempt → Trace → Prop
  | .again, a', calls =>
    Path f q calls (.scoring a') ∧ a'.tries + a'.resamples = a.tries + a.resamples + 1
  | .kept e, _, calls => Ended f q calls (.ok e)

theorem Settled.after {q q' : Stage} {a : Attempt} {calls : Trace} (path : Path f q calls q')
    (v : SingleContext.Round) (a' : Attempt) (more : Trace) (h : Settled f q' a v a' more) :
    Settled f q a v a' (calls ++ more) := by
  cases v with
  | again => exact ⟨path.append h.1, h.2⟩
  | kept e => exact path.ended h

theorem rejectedQuestion_keeps {q : Stage} {a : Attempt} {x : Exchange}
    (leads : a.tries < a.settings.maxTries → Step f q x (.lookingBack a.countQuestion))
    (ends : a.settings.maxTries ≤ a.tries →
      Ends f q x (.error (.retriesExhausted (a.tries + 1) a.settings.maxTries))) :
    Keeps f q t (Settled f q a)
      ((do Attempt.rejectQuestion; let _ ← Attempt.expand; return .again :
        Session Attempt SingleContext.Round) w a (t ++ [x])) := by
  rcases Nat.lt_or_ge a.tries a.settings.maxTries with room | spent
  · rw [Session.bind_value (Attempt.rejectQuestion_of_room room)]
    refine Keeps.after (.single (leads room)) ?_ (Settled.after (.single (leads room)))
    refine (expand_keeps _).bind fun _ a' calls h => ⟨calls, rfl, h.1, ?_⟩
    have ht : a'.tries = a.tries + 1 := h.2.1
    have hr : a'.resamples = a.resamples := h.2.2
    change a'.tries + a'.resamples = _
    omega
  · rw [Session.bind_error (Attempt.rejectQuestion_of_spent spent)]
    exact .of_ends (ends spent)

theorem rejectedNode_keeps {a : Attempt} {x : Exchange} {reply : String}
    (made : Makes (.scoring a) x) (answered : x.text? = some reply)
    (no : f.passes reply = false) :
    Keeps f (.scoring a) t (Settled f (.scoring a) a)
      ((do Attempt.rejectNode; let _ ← Attempt.resample; return .again :
        Session Attempt SingleContext.Round) w a (t ++ [x])) := by
  rcases a.room_or_spent with room | ⟨max, bounded, spent⟩
  · have step := Step.nodeRejected made answered no room
    rw [Session.bind_value (Attempt.rejectNode_of_room room)]
    refine Keeps.after (.single step) ?_ (Settled.after (.single step))
    refine (resample_keeps (fun _ => .replacing) fun _ _ => .replaced).bind
      fun _ a' calls h => ⟨calls, rfl, h.1, ?_⟩
    have ht : a'.tries = a.tries := h.2.1
    have hr : a'.resamples = a.resamples + 1 := h.2.2
    change a'.tries + a'.resamples = _
    omega
  · rw [Session.bind_error (Attempt.rejectNode_of_spent bounded spent)]
    exact .of_ends (.nodesSpent made answered no bounded spent)

theorem question_keeps (a : Attempt) :
    Keeps f (.seeding a) t (Settled f (.seeding a) a)
      ((do
        let question ← SingleContext.seed
        if ← SingleContext.isKept question then
          return .kept (SingleContext.keep question (← Session.state))
        else
          Attempt.rejectQuestion
          let _ ← Attempt.expand
          return .again : Session Attempt SingleContext.Round) w a t) := by
  refine (seed_keeps a).bind ?_
  rintro question a _ ⟨rfl, x, rfl, made, answered⟩
  by_cases hq : question = ""
  · subst hq
    exact rejectedQuestion_keeps (.blank made answered) (.blankSpent made answered)
  · have step := Step.asked (f := f) made answered hq
    have hne : question.isEmpty = false := by simpa using hq
    refine Keeps.after (.single step) ?_ (Settled.after (.single step))
    simp only [SingleContext.isKept, hne]
    refine (questionFilter_keeps a question).bind ?_
    rintro accepted a _ ⟨reply, rfl, rfl, y, rfl, made', answered'⟩
    cases hp : QuestionFilter.passes reply with
    | true => exact ⟨_, rfl, (Ends.kept made' answered' hp).ended⟩
    | false =>
      exact rejectedQuestion_keeps (.refused made' answered' hp) (.refusedSpent made' answered' hp)

theorem round_keeps (a : Attempt) :
    Keeps f (.scoring a) t (Settled f (.scoring a) a) (SingleContext.round f w a t) := by
  simp only [SingleContext.round, Session.state_bind]
  refine (nodeFilter_keeps a).bind ?_
  rintro verdict a _ ⟨reply, hv, rfl, x, rfl, made, answered⟩
  cases hp : f.passes reply with
  | true =>
    have step := Step.nodePassed made answered hp
    simp only [hv, hp, if_true]
    exact Keeps.after (.single step) (question_keeps a) (Settled.after (.single step))
  | false =>
    simp only [hv, hp]
    exact rejectedNode_keeps made answered hp

/-- The calls of a run, up to how it ended. A run that was cut off before a round has rejected so
many nodes and questions. -/
def Course (f : NodeFilter) (q : Stage) (rejected : Nat) (calls : Trace) : Outcome Evolved → Prop
  | .value e => Ended f q calls (.ok e)
  | .error e => Ended f q calls (.error e)
  | .unfinished => ∃ a, Path f q calls (.scoring a) ∧ a.tries + a.resamples = rejected

theorem Course.cases {q : Stage} {n : Nat} {calls : Trace} {outcome : Outcome Evolved}
    (h : Course f q n calls outcome) :
    (∃ r, outcome = .ofExcept r ∧ Ended f q calls r) ∨
      outcome = .unfinished ∧ ∃ a, Path f q calls (.scoring a) ∧ a.tries + a.resamples = n := by
  cases outcome with
  | value e => exact .inl ⟨.ok e, rfl, h⟩
  | error e => exact .inl ⟨.error e, rfl, h⟩
  | unfinished => exact .inr ⟨rfl, h⟩

theorem Course.after {q q' : Stage} {n : Nat} {calls more : Trace} {outcome : Outcome Evolved}
    (path : Path f q calls q') (h : Course f q' n more outcome) :
    Course f q n (calls ++ more) outcome := by
  cases outcome with
  | value e => exact path.ended h
  | error e => exact path.ended h
  | unfinished =>
    obtain ⟨a, hpath, ha⟩ := h
    exact ⟨a, path.append hpath, ha⟩

theorem loop_keeps (a : Attempt) (rounds : Nat) :
    ∃ calls, (SingleContext.loop f rounds w a t).2.2 = t ++ calls ∧
      Course f (.scoring a) (a.tries + a.resamples + rounds) calls
        (SingleContext.loop f rounds w a t).1 := by
  -- every round that goes on has rejected one thing more, so the counters stand for rounds
  induction rounds generalizing a t with
  | zero => exact ⟨[], (List.append_nil t).symm, a, .nil, rfl⟩
  | succ rounds ih =>
    obtain ⟨calls, htrace, hround⟩ := round_keeps (f := f) (w := w) (t := t) a
    rcases hr : SingleContext.round f w a t with ⟨outcome, a', t'⟩
    rw [hr] at htrace hround
    obtain rfl : t' = t ++ calls := htrace
    cases outcome with
    | error e =>
      rw [SingleContext.loop, Session.bind_error hr]
      exact ⟨calls, rfl, hround⟩
    | unfinished => exact hround.elim
    | value v =>
      rw [SingleContext.loop, Session.bind_value hr]
      cases v with
      | kept e => exact ⟨calls, rfl, hround⟩
      | again =>
        have path : Path f (.scoring a) calls (.scoring a') := hround.1
        have hcount : a'.tries + a'.resamples = a.tries + a.resamples + 1 := hround.2
        obtain ⟨more, htrace', hcourse⟩ := ih (t := t ++ calls) a'
        rw [hcount, Nat.add_right_comm] at hcourse
        exact ⟨calls ++ more, by rw [htrace', List.append_assoc], hcourse.after path⟩

theorem singleContext_keeps {σ : Type} (f : NodeFilter) (settings : Settings) (rounds : Nat)
    (w : Collaborators) (s : σ) (t : Trace) :
    ∃ outcome calls, singleContext f settings rounds w s t = (outcome, s, t ++ calls) ∧
      Course f (.opening settings) rounds calls outcome := by
  cases h : firstNode (w.store.sample t 1) with
  | error e =>
    rw [singleContext, Session.bind_error (Attempt.start_error h)]
    exact ⟨_, _, rfl, (ends_of_firstNode .opening h).ended⟩
  | ok n =>
    obtain ⟨more, hsample⟩ := sample_of_firstNode h
    have opened : Step f (.opening settings) (.sample 1 (.ok (n :: more)))
        (.scoring (.on n settings)) := .opened
    obtain ⟨calls, htrace, hcourse⟩ := loop_keeps (f := f) (w := w)
      (t := t ++ [.sample 1 (w.store.sample t 1)]) (.on n settings) rounds
    rw [singleContext, Session.bind_value (Attempt.start_ok h), Session.within_run, htrace, hsample]
    rw [hsample] at hcourse
    refine ⟨_, _, by rw [List.append_assoc], ?_⟩
    simpa [Attempt.on] using hcourse.after (.single opened)

def script : Collaborators :=
  .scripted ⟨⟨1⟩, "d", "Cats purr.", .chunk, none, []⟩
    ["", "unclear", "", "\x7b\"score\": 9\x7d", "Why?", "\x7b\"verdict\": \"No\"\x7d",
      "", "", "", "\x7b\"score\": 8\x7d", " Who purrs? ", "fine"]

def scriptedSettings : Settings := { maxTries := 1, maxResamples := some 1 }

theorem Course.stage_at {settings : Settings} {rounds : Nat} {outcome : Outcome Evolved}
    {before after : Trace} {x : Exchange}
    (h : Course f (.opening settings) rounds (before ++ x :: after) outcome) :
    ∃ q, Path f (.opening settings) before q ∧ Makes q x := by
  rcases h.cases with ⟨r, -, ended⟩ | ⟨-, a, path, -⟩
  · exact ended.split
  · exact path.split

end Evolution

end QuestionSynthesis
