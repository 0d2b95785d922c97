import QuestionSynthesis.Proofs.Evolution.Ledger
import QuestionSynthesis.Proofs.Evolution.SingleContext
import QuestionSynthesis.Proofs.Text.Blank

/-!
# Kept questions

What a question that was kept says of the run that it comes from: its counters account for the
calls, and its last score, seed and judgement are about the window that it is returned with.
-/

namespace QuestionSynthesis

def Trace.last? (k : Exchange.Kind) (calls : Trace) : Option Exchange :=
  (calls.filter fun x => x.kind = k).getLast?

theorem Exchange.bare_of_text? {x : Exchange} {reply : String} (h : x.text? = some reply) :
    Text.Bare reply.toList := by
  cases x with
  | generate prompt n answer =>
    cases answer with
    | error e => simp [text?] at h
    | ok completions =>
      simp only [text?, Completions.firstText?, Option.map_eq_some_iff] at h
      obtain ⟨g, -, rfl⟩ := h
      exact Text.trimmed_bare g.text
  | _ => simp [text?] at h

namespace Evolution

open Stage (Makes)

variable {f : NodeFilter} {settings : Settings} {q q' : Stage} {x : Exchange} {calls : Trace}

theorem Step.rooted (h : Step f q x q') (hq : ∀ a ∈ q.attempt?, a.Rooted) :
    ∀ a ∈ q'.attempt?, a.Rooted := by
  intro a' ha'
  cases h with
  | opened => cases ha'; exact Attempt.on_rooted _ _
  | grewBack => cases ha'; exact (hq _ rfl).prepend _
  | grewAhead => cases ha'; exact (hq _ rfl).append _
  | replaced => cases ha'; exact Attempt.restart_rooted _ _
  | startedOver => cases ha'; exact Attempt.restart_rooted _ _
  | _ =>
    cases ha'
    have ha := hq _ rfl
    exact ha

theorem Path.rooted (path : Path f (.opening settings) calls q) : ∀ a ∈ q.attempt?, a.Rooted := by
  induction path with
  | nil => simp [Stage.attempt?]
  | snoc _ step ih => exact step.rooted ih

theorem Path.of_judging {a : Attempt} {question : String}
    (path : Path f (.opening settings) calls (.judging a question)) :
    ∃ before score seed reply, calls = before ++ [score, seed] ∧
      Makes (.scoring a) score ∧ score.text? = some reply ∧ f.passes reply = true ∧
      Makes (.seeding a) seed ∧ seed.text? = some question ∧ question ≠ "" := by
  -- back from the judgement: only a question that was asked leads there, and only a node that
  -- passed leads to a question
  rcases List.eq_nil_or_concat calls with rfl | ⟨calls, seed, rfl⟩
  · cases path.of_nil
  rw [List.concat_eq_append] at path
  obtain ⟨_, path, step⟩ := path.of_snoc
  cases step with
  | asked madeSeed question nonempty =>
  rcases List.eq_nil_or_concat calls with rfl | ⟨before, score, rfl⟩
  · cases path.of_nil
  rw [List.concat_eq_append] at path
  obtain ⟨_, path, step⟩ := path.of_snoc
  cases step with
  | nodePassed madeScore answered yes =>
  exact ⟨before, score, seed, _, by simp, madeScore, answered, yes, madeSeed, question, nonempty⟩

/-- What a question that was kept says of the calls of its run: its counters account for them, and
the last score, seed and judgement are about the question and the window that are returned. -/
structure Accounts (f : NodeFilter) (settings : Settings) (e : Evolved) (calls : Trace) : Prop where
  tries : e.tries ≤ settings.maxTries
  resamples : ∀ max ∈ settings.maxResamples, e.resamples ≤ max
  scores : Trace.count .score calls = e.tries + e.resamples + 1
  seeds : Trace.count .seed calls = e.tries + 1
  judgements : Trace.count .judge calls = Trace.askedQuestions calls
  samples : Trace.count .sample calls = 1 + e.resamples + Trace.fallbacks calls
  lastScore : ∃ score front more, Trace.last? .score calls = some score ∧
    e.contexts = front :: more ∧ score.Asks .contextScoring [("context", front.content)] ∧
    score.text?.any f.passes = true
  lastSeed : ∃ seed, Trace.last? .seed calls = some seed ∧
    seed.Asks .seedQuestion [("context", Node.mergeContents e.contexts),
      ("style", settings.style.describe), ("length", settings.length.describe)] ∧
    seed.text? = some e.question
  lastJudgement : ∃ judgement, Trace.last? .judge calls = some judgement ∧
    judgement.Asks .filterQuestion [("question", e.question)] ∧
    judgement.text?.any QuestionFilter.passes = true
  nonempty : e.question ≠ ""
  bare : Text.Bare e.question.toList
  root : e.root ∈ e.contexts.map Node.id
  kind : e.kind = .simple

theorem Path.accounts {a : Attempt} {question reply : String}
    (path : Path f (.opening settings) calls (.judging a question))
    (made : Makes (.judging a question) x) (answered : x.text? = some reply)
    (yes : QuestionFilter.passes reply = true) :
    Accounts f settings (SingleContext.keep question a) (calls ++ [x]) := by
  have hset : a.settings = settings := path.settings
  have hwithin := path.within
  have hledger := path.ledger
  have hroot := path.rooted a rfl
  have hjudge := made.kind
  obtain ⟨before, score, seed, scored, rfl, madeScore, hscore, hpass, madeSeed, hseed, nonempty⟩ :=
    path.of_judging
  have hkinds := And.intro madeScore.kind madeSeed.kind
  simp only [Stage.kind] at hjudge hkinds
  constructor
  case tries => exact hset ▸ hwithin.1
  case resamples => exact hset ▸ hwithin.2
  case scores =>
    rw [Trace.count_snoc, hjudge, hledger.scores]
    rfl
  case seeds =>
    rw [Trace.count_snoc, hjudge, hledger.seeds]
    rfl
  case judgements =>
    have hasks : x.asksQuestion = false := by simp [Exchange.asksQuestion, hjudge]
    rw [Trace.count_snoc, hjudge, Trace.askedQuestions, List.countP_append, List.countP_singleton,
      hasks]
    exact hledger.judgements
  case samples =>
    rw [Trace.count_snoc, Trace.fallbacks_snoc, hjudge]
    simp only [reduceCtorEq, and_false, if_false, Nat.add_zero]
    exact hledger.samples
  case lastScore =>
    refine ⟨score, a.front, a.rest, ?_, rfl, ?_, ?_⟩
    · simp [Trace.last?, hkinds, hjudge]
    · cases madeScore with
      | scoring rendered => exact ⟨_, _, rendered, rfl⟩
    · simp [hscore, hpass]
  case lastSeed =>
    refine ⟨seed, ?_, ?_, hseed⟩
    · simp [Trace.last?, hkinds, hjudge]
    · cases madeSeed with
      | seeding rendered => exact ⟨_, _, hset ▸ rendered, rfl⟩
  case lastJudgement =>
    refine ⟨x, ?_, ?_, ?_⟩
    · simp [Trace.last?, hjudge]
    · cases made with
      | judging rendered => exact ⟨_, _, rendered, rfl⟩
    · simp [answered, yes]
  case nonempty => exact nonempty
  case bare => exact Exchange.bare_of_text? hseed
  case root => exact hroot
  case kind => rfl

theorem kept_accounts {σ : Type} {rounds : Nat} {w : Collaborators} {s s' : σ} {t t' : Trace}
    {e : Evolved} (h : singleContext f settings rounds w s t = (.value e, s', t')) :
    ∃ calls, t' = t ++ calls ∧ Accounts f settings e calls := by
  obtain ⟨outcome, calls, hrun, hcourse⟩ := singleContext_keeps f settings rounds w s t
  obtain ⟨rfl, rfl, rfl⟩ : outcome = .value e ∧ s = s' ∧ t ++ calls = t' := by
    simpa using hrun.symm.trans h
  obtain ⟨before, x, q, rfl, path, ends⟩ := hcourse
  cases ends with
  | kept made answered yes => exact ⟨_, rfl, path.accounts made answered yes⟩

theorem kept_accounts_scripted :
    ∃ e s' t', singleContext ⟨NodeFilter.defaultThreshold⟩ scriptedSettings 3 script () [] =
        (.value e, s', t') ∧ e.question = "Who purrs?" ∧ e.tries = 1 ∧ e.resamples = 1 ∧
      ∃ calls, t' = [] ++ calls ∧
        Accounts ⟨NodeFilter.defaultThreshold⟩ scriptedSettings e calls := by
  have hkept : (singleContext ⟨NodeFilter.defaultThreshold⟩ scriptedSettings 3 script () []).1.any
      (fun e => e.question = "Who purrs?" ∧ e.tries = 1 ∧ e.resamples = 1) = true := by
    decide +kernel
  generalize hrun :
    singleContext ⟨NodeFilter.defaultThreshold⟩ scriptedSettings 3 script () [] = run at hkept
  obtain ⟨e | _ | _, s', t'⟩ := run
  · obtain ⟨hquestion, htries, hresamples⟩ := of_decide_eq_true hkept
    exact ⟨e, s', t', rfl, hquestion, htries, hresamples, kept_accounts hrun⟩
  · cases hkept
  · cases hkept

end Evolution

end QuestionSynthesis
