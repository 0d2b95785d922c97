import QuestionSynthesis.Proofs.Evolution.Ledger
import QuestionSynthesis.Proofs.Evolution.SingleContext

/-!
# Termination of a run

Every round but the last rejects a node or a question, so both budgets together bound the rounds.
A run that has ended stays as it is when it is allowed more of them.
-/

namespace QuestionSynthesis

namespace Evolution

open Stage (Makes)

variable {f : NodeFilter} {settings : Settings} {q : Stage} {x : Exchange} {calls : Trace}
  {r : Except Error Evolved} {w : Collaborators}

theorem loop_succ {rounds : Nat} {a : Attempt} {t : Trace}
    (h : (SingleContext.loop f rounds w a t).1 ≠ .unfinished) :
    SingleContext.loop f (rounds + 1) w a t = SingleContext.loop f rounds w a t := by
  induction rounds generalizing a t with
  | zero => exact absurd rfl h
  | succ rounds ih =>
    rcases hr : SingleContext.round f w a t with ⟨outcome, a', t'⟩
    rw [SingleContext.loop] at h
    cases outcome with
    | error e => simp only [SingleContext.loop, Session.bind_error hr]
    | unfinished => exact absurd (by rw [Session.bind_unfinished hr]) h
    | value v =>
      rw [Session.bind_value hr] at h
      simp only [SingleContext.loop, Session.bind_value hr]
      cases v with
      | kept e => rfl
      | again => exact ih h

theorem loop_of_le {n m : Nat} (hle : n ≤ m) {a : Attempt} {t : Trace}
    (h : (SingleContext.loop f n w a t).1 ≠ .unfinished) :
    SingleContext.loop f m w a t = SingleContext.loop f n w a t := by
  induction hle with
  | refl => rfl
  | step _ ih => rw [loop_succ (by rwa [ih]), ih]

theorem singleContext_of_le {σ : Type} {n m : Nat} (hle : n ≤ m) {s : σ} {t : Trace}
    (h : (singleContext f settings n w s t).1 ≠ .unfinished) :
    singleContext f settings m w s t = singleContext f settings n w s t := by
  cases hn : Session.firstNode (w.store.sample t 1) with
  | error e => simp only [singleContext, Session.bind_error (Attempt.start_error hn)]
  | ok n =>
    simp only [singleContext, Session.bind_value (Attempt.start_ok hn), Session.within_run] at h ⊢
    rw [loop_of_le hle h]

theorem Stage.score_due_le (q : Stage) : q.scored + (if q.kind = .score then 1 else 0) ≤ 1 := by
  cases q <;> simp [Stage.scored, Stage.kind]

theorem Stage.seed_due_le (q : Stage) : q.asked + (if q.kind = .seed then 1 else 0) ≤ 1 := by
  cases q <;> simp [Stage.asked, Stage.kind]

theorem Stage.judge_due_le (q : Stage) : (if q.kind = .judge then 1 else 0) ≤ q.asked := by
  cases q <;> simp [Stage.asked, Stage.kind]

theorem Stage.lookBack_due_le (q : Stage) :
    (if q.kind = .lookBack then 1 else 0) ≤ q.toLookBack := by
  cases q <;> simp [Stage.toLookBack, Stage.kind]

theorem Stage.lookAhead_due_le (q : Stage) :
    (if q.kind = .lookAhead then 1 else 0) ≤ q.toLookAhead := by
  cases q <;> simp [Stage.toLookAhead, Stage.kind]

theorem Stage.sample_due_le (q : Stage) :
    (if q.kind = .sample then 1 else 0) ≤ q.unsampled + q.toStartOver := by
  cases q <;> simp [Stage.unsampled, Stage.toStartOver, Stage.kind]

/-- The most calls that an evolution makes with a bounded budget of nodes. -/
structure WithinBudgets (settings : Settings) (max : Nat) (calls : Trace) : Prop where
  scores : Trace.count .score calls ≤ settings.maxTries + max + 1
  seeds : Trace.count .seed calls ≤ settings.maxTries + 1
  judgements : Trace.count .judge calls ≤ settings.maxTries + 1
  looks : Trace.count .lookBack calls + Trace.count .lookAhead calls ≤ 2 * settings.maxTries
  samples : Trace.count .sample calls ≤ settings.maxTries + max + 1

theorem Path.withinBudgets {max : Nat} (path : Path f (.opening settings) calls q)
    (bounded : settings.maxResamples = some max) (made : Makes q x) :
    WithinBudgets settings max (calls ++ [x]) := by
  have hset : _ = settings := path.settings
  have htries : q.tries ≤ settings.maxTries := hset ▸ path.within.1
  have hresamples : q.resamples ≤ max := path.within.2 max (hset ▸ bounded)
  have hledger := path.ledger
  constructor
  case scores =>
    have hscores := hledger.scores
    have hdue := q.score_due_le
    rw [Trace.count_snoc, made.kind]
    omega
  case seeds =>
    have hseeds := hledger.seeds
    have hdue := q.seed_due_le
    rw [Trace.count_snoc, made.kind]
    omega
  case judgements =>
    -- every question judged was generated, and the last of them may still wait for its judgement
    have hasked := Trace.askedQuestions_le_count calls
    have hjudgements := hledger.judgements
    have hseeds := hledger.seeds
    have hseed := q.seed_due_le
    have hdue := q.judge_due_le
    rw [Trace.count_snoc, made.kind]
    omega
  case looks =>
    have hback := hledger.looksBack
    have hahead := hledger.looksAhead
    have hdueBack := q.lookBack_due_le
    have hdueAhead := q.lookAhead_due_le
    rw [Trace.count_snoc, Trace.count_snoc, made.kind]
    omega
  case samples =>
    have hsamples := hledger.samples
    have hfallbacks := hledger.fallbacks
    have hdue := q.sample_due_le
    rw [Trace.count_snoc, made.kind]
    omega

/-- With a bounded budget of nodes an evolution ends, whatever the answers are. -/
theorem ends_within_budgets {σ : Type} (f : NodeFilter) {settings : Settings} {max : Nat}
    (bounded : settings.maxResamples = some max) (w : Collaborators) (s : σ) (t : Trace) :
    ∃ outcome calls, outcome ≠ .unfinished ∧
      (∀ rounds, settings.maxTries + max < rounds →
        singleContext f settings rounds w s t = (outcome, s, t ++ calls)) ∧
      WithinBudgets settings max calls := by
  obtain ⟨outcome, calls, hrun, hcourse⟩ :=
    singleContext_keeps f settings (settings.maxTries + max + 1) w s t
  rcases hcourse.cases with ⟨r, rfl, before, x, q, rfl, path, ends⟩ | ⟨-, a, path, hrounds⟩
  · have hends : Outcome.ofExcept r ≠ .unfinished := by cases r <;> simp [Outcome.ofExcept]
    refine ⟨_, _, hends, fun rounds hr => ?_, path.withinBudgets bounded ends.makes⟩
    rw [singleContext_of_le hr (by rw [hrun]; exact hends), hrun]
  · have hset : (Stage.scoring a).settings = settings := path.settings
    have htries : a.tries ≤ settings.maxTries := hset ▸ path.within.1
    have hresamples : a.resamples ≤ max := path.within.2 max (hset ▸ bounded)
    omega

theorem ends_within_budgets_scripted :
    scriptedSettings.maxResamples = some 1 ∧
      ∃ outcome calls, outcome ≠ .unfinished ∧
        (∀ rounds, scriptedSettings.maxTries + 1 < rounds →
          singleContext ⟨NodeFilter.defaultThreshold⟩ scriptedSettings rounds script () [] =
            (outcome, (), [] ++ calls)) ∧
        WithinBudgets scriptedSettings 1 calls :=
  have bounded : scriptedSettings.maxResamples = some 1 := rfl
  ⟨bounded, ends_within_budgets ⟨NodeFilter.defaultThreshold⟩ bounded script () []⟩

end Evolution

end QuestionSynthesis
