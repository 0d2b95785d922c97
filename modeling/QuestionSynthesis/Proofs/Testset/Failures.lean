import QuestionSynthesis.Proofs.Evolution.OnGraph
import QuestionSynthesis.Proofs.Testset.Batch

/-!
# How a batch can fail

Over a graph with nodes and a service that never fails, evolutions fail in expected ways, all of
which but one cost only a row. So a batch comes to a test set, or to a reply that could not be used
(`Error.generation`). Over a graph without nodes the first call of the first job is refused.
-/

namespace QuestionSynthesis

namespace Testset

variable {σ : Type} {settings : Settings} {rounds : Nat} {w : Collaborators} {s : σ}
  {t calls : Trace} {kind : Evolution.Kind} {g : Graph} {choose : Chooser} {error : Error}

theorem reference_error (reliable : w.Reliable g choose) {e : Evolved} {s' : σ} {t' : Trace}
    (refused : reference e w s t = (.error error, s', t')) : ∃ text, error = .generation text := by
  obtain ⟨prompt, -, run⟩ := reference_run e w s t
  have hout := congrArg Prod.fst (run.symm.trans refused)
  cases hreply : referenceOf e (w.service.generate t prompt 1) with
  | ok answer =>
    simp only [hreply, Outcome.ofExcept] at hout
    cases hout
  | error error' =>
    simp only [hreply, Outcome.ofExcept] at hout
    cases hout
    cases referenceOf_error hreply with
    | inl failed => exact reliable.expected_of_firstText failed
    | inr blank => exact blank

theorem Job.generation (reliable : w.Reliable g choose)
    (h : Job settings rounds w s t kind calls (.error error)) :
    ∃ text, error = .generation text := by
  cases h with
  | unanswered evolved refused => exact reference_error reliable refused
  | failed failed serious =>
    exact (Evolution.evolve_expected reliable failed).generation_of_serious serious

theorem Job.finished {max : Nat} (bounded : settings.evolution.maxResamples = some max)
    (long : settings.evolution.maxTries + max < rounds) {outcome : Outcome Entry}
    (h : Job settings rounds w s t kind calls outcome) : outcome ≠ .unfinished := by
  intro hout
  subst hout
  cases h with
  | unfinished cut =>
    apply Evolution.evolve_finished bounded long
    exact congrArg Prod.fst cut

theorem evolve_ends (reliable : w.Reliable g choose) {max : Nat}
    (bounded : settings.evolution.maxResamples = some max)
    (long : settings.evolution.maxTries + max < rounds) (s : σ) (t : Trace)
    (kind : Evolution.Kind) :
    (∃ e, (evolve settings rounds kind w s t).1 = .value e) ∨
      ∃ error, (evolve settings rounds kind w s t).1 = .error error ∧ error.Expected kind := by
  have finished : (evolve settings rounds kind w s t).1 ≠ .unfinished :=
    Evolution.evolve_finished bounded long
  cases run : evolve settings rounds kind w s t with
  | mk outcome rest =>
    cases outcome with
    | value e => exact .inl ⟨e, rfl⟩
    | error error => exact .inr ⟨error, rfl, Evolution.evolve_expected reliable run⟩
    | unfinished =>
      rw [run] at finished
      exact absurd rfl finished

theorem runAll_ends (reliable : w.Reliable g choose) {max : Nat}
    (bounded : settings.evolution.maxResamples = some max)
    (long : settings.evolution.maxTries + max < rounds) (s : σ) (t : Trace)
    (kinds : List Evolution.Kind) (ts : Testset) :
    (∃ ts', (runAll settings rounds kinds ts w s t).1 = .value ts') ∨
      ∃ text, (runAll settings rounds kinds ts w s t).1 = .error (.generation text) := by
  cases ran_or_stopped settings rounds w s kinds t with
  | inl ran =>
    obtain ⟨calls, entries, ran⟩ := ran
    rw [ran.run ts]
    exact .inl ⟨_, rfl⟩
  | inr stopped =>
    obtain ⟨calls, outcome, stopped, failed⟩ := stopped
    rw [stopped.run failed ts]
    obtain ⟨before, kind, after, done, entries, last, -, -, job, -⟩ := stopped
    cases outcome with
    | value entry => exact absurd rfl (failed entry)
    | error error =>
      obtain ⟨text, rfl⟩ := job.generation reliable
      exact .inr ⟨text, rfl⟩
    | unfinished => exact absurd rfl (job.finished bounded long)

theorem runAll_of_refused (refused : w.store.sample t 1 = .error error)
    (serious : error.isContentFailure = false) (kinds : List Evolution.Kind) (ts : Testset) :
    runAll settings rounds (kind :: kinds) ts w s t =
      (.error error, s, t ++ [.sample 1 (.error error)]) := by
  have job : Job settings rounds w s t kind [.sample 1 (.error error)] (.error error) :=
    .failed (Evolution.evolve_of_refused refused) serious
  exact Session.bind_error job.run

theorem exists_schedule_eq_cons {simple multi : Nat} (h : 0 < simple + multi) :
    ∃ kind kinds, schedule simple multi = kind :: kinds := by
  apply List.exists_cons_of_ne_nil
  intro hnil
  have hlength := congrArg List.length hnil
  simp only [schedule, List.length_append, List.length_replicate, List.length_nil] at hlength
  omega

/-- No error but the expected ones is reachable over an assembled graph. -/
theorem fails_only_as_expected (built : g.Assembled) (picks : choose.PicksOne)
    (store : w.store = g.store choose) (gen : Generator) :
    (0 < g.nodeCount → (∀ t prompt n e, w.service.generate t prompt n ≠ .error e) →
      ∀ max, gen.settings.evolution.maxResamples = some max →
      ∀ rounds, gen.settings.evolution.maxTries + max < rounds → ∀ (s : σ) t,
        (∀ kind, (∃ e, (evolve gen.settings rounds kind w s t).1 = .value e) ∨
          ∃ error, (evolve gen.settings rounds kind w s t).1 = .error error ∧
            error.Expected kind) ∧
        ∀ n, (∃ ts, (gen.generate rounds n w s t).1 = .value ts) ∨
          ∃ text, (gen.generate rounds n w s t).1 = .error (.generation text)) ∧
    (g.nodeCount = 0 → ∀ rounds (s : σ) t,
      (∀ kind, evolve gen.settings rounds kind w s t =
        (.error (.insufficientNodes 1 0), s,
          t ++ [.sample 1 (.error (.insufficientNodes 1 0))])) ∧
      ∀ n, 0 < n → gen.generate rounds n w s t =
        (.error (.insufficientNodes 1 0), s,
          t ++ [.sample 1 (.error (.insufficientNodes 1 0))])) := by
  have shares := Distribution.counts_of_valid (Settings.distribution_valid gen.valid)
  constructor
  · intro inhabited replies max bounded rounds long s t
    have reliable : w.Reliable g choose := ⟨built, store, picks, inhabited, replies⟩
    refine ⟨evolve_ends reliable bounded long s t, fun n => ?_⟩
    obtain ⟨simple, multi, hcounts, -⟩ := shares n
    rw [generate_eq gen rounds hcounts]
    exact runAll_ends reliable bounded long s t _ _
  · intro vacant rounds s t
    have refused : w.store.sample t 1 = .error (.insufficientNodes 1 0) := by
      rw [store]
      exact built.sample_none vacant choose t
    refine ⟨fun kind => Evolution.evolve_of_refused refused, fun n hn => ?_⟩
    obtain ⟨simple, multi, hcounts, total⟩ := shares n
    obtain ⟨kind, kinds, hkinds⟩ := exists_schedule_eq_cons (Nat.lt_of_lt_of_eq hn total.symm)
    rw [generate_eq gen rounds hcounts, hkinds]
    exact runAll_of_refused refused rfl kinds {}

end Testset

def Graph.vacant : Graph := Assembly.new.build

theorem Graph.vacant_assembled : Graph.vacant.Assembled := ⟨1, [], rfl⟩

namespace Testset

theorem fails_only_as_expected_row :
    0 < Graph.row.nodeCount ∧ Graph.vacant.nodeCount = 0 ∧
      (∀ n, (∃ ts, (Generator.standard.generate 56 n (.onGraph .row .firsts) () []).1 = .value ts) ∨
        ∃ text, (Generator.standard.generate 56 n (.onGraph .row .firsts) () []).1 =
          .error (.generation text)) ∧
      ∀ n, 0 < n → Generator.standard.generate 0 n (.onGraph .vacant .firsts) () [] =
        (.error (.insufficientNodes 1 0), (),
          [.sample 1 (.error (.insufficientNodes 1 0))]) := by
  have inhabited : 0 < Graph.row.nodeCount := by decide +kernel
  have vacant : Graph.vacant.nodeCount = 0 := by decide +kernel
  have picks := Chooser.firsts_sound.picksOne
  obtain ⟨onRow, -⟩ := fails_only_as_expected (w := .onGraph .row .firsts) Graph.row_assembled
    picks rfl Generator.standard
  obtain ⟨-, onVacant⟩ := fails_only_as_expected (w := .onGraph .vacant .firsts)
    Graph.vacant_assembled picks rfl Generator.standard
  refine ⟨inhabited, vacant, ?_, (onVacant vacant 0 () []).2⟩
  have replies : ∀ t prompt n e,
      (Collaborators.onGraph .row .firsts).service.generate t prompt n ≠ .error e := by
    intro t prompt n e failed
    cases failed
  exact (onRow inhabited replies 50 rfl 56 (by decide) () []).2

end Testset

end QuestionSynthesis
