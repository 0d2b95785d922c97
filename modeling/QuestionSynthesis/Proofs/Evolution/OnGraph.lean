import QuestionSynthesis.Proofs.Evolution.Answered

/-!
# Evolutions over an assembled graph

A graph that has a node serves every call of an evolution, because the engine only ever asks it
about nodes of its own. With a service that never fails, an evolution then ends in a question or
for one of four reasons (`Error.Expected`), and with a bounded budget of nodes it does end. A graph
without nodes refuses the first sample already.
-/

namespace QuestionSynthesis

open Session (firstText)

/-- The ways in which an evolution may fail although every call was served. -/
inductive Error.Expected (kind : Evolution.Kind) : Error → Prop where
  | retries {tries maxTries} : Expected kind (.retriesExhausted tries maxTries)
  | resamples {resamples} : Expected kind (.resamplesExhausted resamples)
  | generation {text} : Expected kind (.generation text)
  | alone {node} (multi : kind = .multiContext) : Expected kind (.noSimilarContext node)

theorem Error.Expected.multiContext {e : Error} (h : e.Expected .simple) :
    e.Expected .multiContext := by
  cases h with
  | retries => exact .retries
  | resamples => exact .resamples
  | generation => exact .generation
  | alone multi => cases multi

theorem Error.Expected.generation_of_serious {kind : Evolution.Kind} {e : Error}
    (h : e.Expected kind) (serious : e.isContentFailure = false) :
    ∃ text, e = .generation text := by
  cases h with
  | generation => exact ⟨_, rfl⟩
  | _ => cases serious

/-- The store is a graph that has nodes, and the service never fails. -/
structure Collaborators.Reliable (w : Collaborators) (g : Graph) (choose : Chooser) : Prop where
  built : g.Assembled
  store : w.store = g.store choose
  picks : choose.PicksOne
  inhabited : 0 < g.nodeCount
  replies : ∀ t prompt n e, w.service.generate t prompt n ≠ .error e

variable {w : Collaborators} {g : Graph} {choose : Chooser} {t : Trace}

namespace Collaborators.Reliable

theorem sample (h : w.Reliable g choose) (t : Trace) :
    ∃ n, w.store.sample t 1 = .ok [n] ∧ g.node? n.id = some n := by
  obtain ⟨id, known⟩ := Graph.exists_known h.inhabited
  rw [h.store]
  exact h.built.sample_one h.picks t known

theorem adjacent (h : w.Reliable g choose) {n : Node} (own : g.node? n.id = some n) (t : Trace)
    (d : Direction) : ∃ found, w.store.adjacent t n.id d = .ok found := by
  rw [h.store]
  exact ⟨_, Graph.adjacent_of_node own d⟩

theorem similar (h : w.Reliable g choose) {n : Node} (own : g.node? n.id = some n) (t : Trace) :
    ∃ nodes, w.store.similar t n.id = .ok nodes := by
  rw [h.store]
  exact Graph.similar_of_node own

theorem generate (h : w.Reliable g choose) (t : Trace) (prompt : String) (n : Nat) :
    ∃ completions, w.service.generate t prompt n = .ok completions := by
  cases hreply : w.service.generate t prompt n with
  | error e => exact absurd hreply (h.replies t prompt n e)
  | ok completions => exact ⟨completions, rfl⟩

theorem expected_of_firstText (h : w.Reliable g choose) {prompt : String} {e : Error}
    (refused : firstText (w.service.generate t prompt 1) = .error e) :
    ∃ text, e = .generation text := by
  obtain ⟨completions, hreply⟩ := h.generate t prompt 1
  rw [hreply] at refused
  obtain hfailed | ⟨_, _, -, rfl⟩ := Session.error_of_firstText refused
  · cases hfailed
  · exact ⟨_, rfl⟩

end Collaborators.Reliable

namespace Evolution

open Stage (Makes)

variable {σ : Type} {f : NodeFilter} {settings : Settings} {rounds : Nat} {s s' : σ} {t' : Trace}
  {q : Stage} {x : Exchange} {e : Error}

theorem Stage.Makes.served (reliable : w.Reliable g choose) (made : Makes q x)
    (embedded : ∀ a ∈ q.attempt?, a.Embedded g) (answered : x.AnsweredBy w t) :
    x.error? = none := by
  obtain ⟨n, hsample, -⟩ := reliable.sample t
  cases made with
  | opening => cases answered.trans hsample; rfl
  | replacing => cases answered.trans hsample; rfl
  | startingOver => cases answered.trans hsample; rfl
  | @lookingBack a =>
    have hfront := (embedded a rfl).own a.front (List.mem_cons_self ..)
    obtain ⟨found, hfound⟩ := reliable.adjacent hfront t .prev
    cases answered.trans hfound
    rfl
  | @lookingAhead a =>
    have hlast := (embedded a rfl).own a.last (List.getLast_mem _)
    obtain ⟨found, hfound⟩ := reliable.adjacent hlast t .next
    cases answered.trans hfound
    rfl
  | @scoring a prompt =>
    obtain ⟨completions, hreply⟩ := reliable.generate t prompt 1
    cases answered.trans hreply
    rfl
  | @seeding a prompt =>
    obtain ⟨completions, hreply⟩ := reliable.generate t prompt 1
    cases answered.trans hreply
    rfl
  | @judging a question prompt =>
    obtain ⟨completions, hreply⟩ := reliable.generate t prompt 1
    cases answered.trans hreply
    rfl

theorem Ends.expected (reliable : w.Reliable g choose) (ends : Ends f q x (.error e))
    (embedded : ∀ a ∈ q.attempt?, a.Embedded g) (answered : x.AnsweredBy w t) :
    e.Expected .simple := by
  cases ends with
  | failed made failure =>
    have served := made.served reliable embedded answered
    rw [served] at failure
    cases failure
  | noNode =>
    obtain ⟨n, hsample, -⟩ := reliable.sample t
    cases answered.trans hsample
  | noCompletion => exact .generation
  | nodesSpent => exact .resamples
  | blankSpent => exact .retries
  | refusedSpent => exact .retries

theorem singleContext_expected (reliable : w.Reliable g choose)
    (run : singleContext f settings rounds w s t = (.error e, s', t')) : e.Expected .simple := by
  obtain ⟨calls, -, hcourse, answered⟩ := singleContext_course run
  obtain ⟨before, x, q, rfl, path, ends⟩ := hcourse
  obtain ⟨hbefore, hlast⟩ := Trace.answeredBy_append.mp answered
  have embedded := path.embedded reliable.built.owns reliable.store hbefore
  exact ends.expected reliable embedded (Trace.answeredBy_singleton.mp hlast)

theorem Rewriting.expected (reliable : w.Reliable g choose) {template : Template}
    {vars : List (String × String)} {step : String}
    (h : Rewriting w t template vars step x (.error e)) : ∃ text, e = .generation text := by
  cases h with
  | blank => exact ⟨_, rfl⟩
  | failed _ refused => exact reliable.expected_of_firstText refused

theorem Tail.expected (reliable : w.Reliable g choose) {anchor : Node} {seed : Evolved}
    {calls : Trace} (own : g.node? anchor.id = some anchor)
    (h : Tail w anchor seed t calls (.error e)) : e.Expected .multiContext := by
  cases h with
  | unrelated refused =>
    obtain ⟨nodes, hnodes⟩ := reliable.similar own t
    cases refused.symm.trans hnodes
  | alone => exact .alone rfl
  | unmerged _ merging =>
    obtain ⟨text, rfl⟩ := merging.expected reliable
    exact .generation
  | uncompressed _ _ compressing =>
    obtain ⟨text, rfl⟩ := compressing.expected reliable
    exact .generation

theorem multiContext_expected (reliable : w.Reliable g choose)
    (run : multiContext f settings rounds w s t = (.error e, s', t')) :
    e.Expected .multiContext := by
  obtain ⟨calls, -, composed⟩ := composed_of_run run
  obtain ⟨n, hsample, own⟩ := reliable.sample t
  generalize houtcome : Outcome.error e = outcome at composed
  cases composed with
  | noAnchor refused =>
    rw [hsample] at refused
    cases refused
  | noSeed _ seeding =>
    rw [← houtcome] at seeding
    exact (singleContext_expected reliable seeding).multiContext
  | @closed anchor more calls seed closing r sampled _ tail =>
    cases sampled.symm.trans hsample
    cases r with
    | ok kept => cases houtcome
    | error e' =>
      cases houtcome
      exact tail.expected reliable own

theorem evolve_expected {kind : Kind} (reliable : w.Reliable g choose)
    (run : evolve kind f settings rounds w s t = (.error e, s', t')) : e.Expected kind := by
  cases kind with
  | simple => exact singleContext_expected reliable run
  | multiContext => exact multiContext_expected reliable run

theorem singleContext_finished {max : Nat} (bounded : settings.maxResamples = some max)
    (long : settings.maxTries + max < rounds) :
    (singleContext f settings rounds w s t).1 ≠ .unfinished := by
  obtain ⟨outcome, calls, hrun, hcourse⟩ := singleContext_keeps f settings rounds w s t
  rw [hrun]
  obtain ⟨r, rfl, -⟩ | ⟨-, a, path, hrounds⟩ := hcourse.cases
  · cases r <;> simp [Outcome.ofExcept]
  · have hset : (Stage.scoring a).settings = settings := path.settings
    have htries : a.tries ≤ settings.maxTries := hset ▸ path.within.1
    have hresamples : a.resamples ≤ max := path.within.2 max (hset ▸ bounded)
    omega

theorem evolve_finished {kind : Kind} {max : Nat} (bounded : settings.maxResamples = some max)
    (long : settings.maxTries + max < rounds) :
    (evolve kind f settings rounds w s t).1 ≠ .unfinished := by
  cases kind with
  | simple => exact singleContext_finished bounded long
  | multiContext =>
    obtain ⟨calls, outcome, h⟩ := Composed.total f settings rounds w s t
    have hrun : evolve .multiContext f settings rounds w s t = _ := h.run
    rw [hrun]
    cases h with
    | noAnchor => simp
    | @noSeed anchor more _ _ _ seeding =>
      have hseed := singleContext_finished (f := f) (w := w) (s := s)
        (t := t ++ [.sample 1 (.ok (anchor :: more))]) bounded long
      rwa [seeding] at hseed
    | @closed _ _ _ _ _ r => cases r <;> simp [Outcome.ofExcept]

theorem evolve_of_refused {kind : Kind} (refused : w.store.sample t 1 = .error e) :
    evolve kind f settings rounds w s t = (.error e, s, t ++ [.sample 1 (.error e)]) := by
  have hfirst : Session.firstNode (w.store.sample t 1) = .error e := by
    rw [refused]
    rfl
  cases kind with
  | simple =>
    have hstart : Attempt.start settings w s t = (.error e, s, t ++ [.sample 1 _]) :=
      Attempt.start_error hfirst
    rw [refused] at hstart
    exact Session.bind_error hstart
  | multiContext =>
    have hsample := Session.sampleOne_run w s t
    rw [hfirst, refused] at hsample
    exact Session.bind_error hsample

end Evolution

end QuestionSynthesis
