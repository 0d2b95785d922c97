import QuestionSynthesis.Proofs.Dialogue.Records
import QuestionSynthesis.Proofs.Evolution.Kept
import QuestionSynthesis.Proofs.Evolution.MultiContext
import QuestionSynthesis.Proofs.Evolution.Window

/-!
# Evolutions and the collaborators they ask

The windows that an evolution goes through are those of an attempt whose operations were answered
by the collaborators, so the invariants of windows hold all along its course (`Path.preserves`).
What is kept in the end is proper, and its contexts are nodes of the graph that was asked.
-/

namespace QuestionSynthesis

open Session (Records firstNode)

namespace Attempt

theorem start_records {σ : Type} (settings : Evolution.Settings) :
    Records (start settings : Session σ Attempt) :=
  Records.sampleOne.bind fun _ => .pure _

theorem resample_records : Records resample :=
  Records.sampleOne.bind fun _ => Records.state.bind fun _ => (Records.setState _).bind fun _ =>
    .pure _

theorem rejectNode_records : Records rejectNode := by
  refine Records.state.bind fun a => (Records.setState _).bind fun _ => ?_
  cases a.settings.maxResamples with
  | none => exact .pure _
  | some max =>
    by_cases spent : max < a.resamples + 1
    · simp only [spent, if_true]
      exact .fail _
    · simp only [spent, if_false]
      exact .pure _

theorem rejectQuestion_records : Records rejectQuestion := by
  refine Records.state.bind fun a => (Records.setState _).bind fun _ => ?_
  by_cases spent : a.settings.maxTries < a.tries + 1
  · simp only [spent, if_true]
    exact .fail _
  · simp only [spent, if_false]
    exact .pure _

theorem newNeighbour_records (id : NodeId) (d : Direction) : Records (newNeighbour id d) :=
  (Records.adjacent id d).bind fun _ => Records.state.bind fun _ => .pure _

theorem expand_records : Records expand := by
  refine Records.state.bind fun a => (newNeighbour_records a.front.id .prev).bind fun before => ?_
  cases before with
  | some n => exact (Records.setState _).bind fun _ => .pure _
  | none =>
    refine (newNeighbour_records a.last.id .next).bind fun after => ?_
    cases after with
    | some n => exact (Records.setState _).bind fun _ => .pure _
    | none => exact resample_records.bind fun _ => .pure _

end Attempt

namespace Evolution

theorem nodeFilter_records {σ : Type} (f : NodeFilter) (n : Node) :
    Records (f.evaluate n : Session σ NodeVerdict) :=
  (Records.ofExcept _).bind fun _ => (Records.generateText _).bind fun _ => .pure _

theorem questionFilter_records {σ : Type} (question : String) :
    Records (QuestionFilter.evaluate question : Session σ Bool) :=
  (Records.ofExcept _).bind fun _ => (Records.generateText _).bind fun _ => .pure _

theorem seed_records : Records SingleContext.seed :=
  Records.state.bind fun _ => (Records.ofExcept _).bind fun _ => .generateText _

theorem isKept_records (question : String) : Records (SingleContext.isKept question) := by
  unfold SingleContext.isKept
  split
  · exact .pure _
  · exact questionFilter_records question

theorem round_records (f : NodeFilter) : Records (SingleContext.round f) := by
  refine Records.state.bind fun a => (nodeFilter_records f a.front).bind fun verdict => ?_
  split
  · refine seed_records.bind fun question => (isKept_records question).bind fun kept => ?_
    split
    · exact Records.state.bind fun _ => .pure _
    · exact Attempt.rejectQuestion_records.bind fun _ => Attempt.expand_records.bind fun _ =>
        .pure _
  · exact Attempt.rejectNode_records.bind fun _ => Attempt.resample_records.bind fun _ => .pure _

theorem loop_records (f : NodeFilter) (rounds : Nat) : Records (SingleContext.loop f rounds) := by
  induction rounds with
  | zero => exact .giveUp
  | succ rounds ih =>
    refine (round_records f).bind fun r => ?_
    cases r with
    | kept e => exact .pure e
    | again => exact ih

theorem singleContext_records {σ : Type} (f : NodeFilter) (settings : Settings) (rounds : Nat) :
    Records (singleContext f settings rounds : Session σ Evolved) :=
  (Attempt.start_records settings).bind fun a => .within a (loop_records f rounds)

section

variable {f : NodeFilter} {settings : Settings} {w : Collaborators} {t calls : Trace}
  {x : Exchange} {q q' : Stage}

open Attempt (Moved)

theorem Step.moved (step : Step f q x q') (answered : x.AnsweredBy w t) :
    (∃ n settings, q = .opening settings ∧ firstNode (w.store.sample t 1) = .ok n ∧
      q'.attempt? = some (.on n settings)) ∨
    ∃ a b, q.attempt? = some a ∧ q'.attempt? = some b ∧ Moved w.store a b := by
  cases step with
  | @opened settings n more =>
    have hn : firstNode (w.store.sample t 1) = .ok n := congrArg firstNode answered.symm
    exact .inl ⟨n, settings, rfl, hn, rfl⟩
  | nodePassed => exact .inr ⟨_, _, rfl, rfl, .stayed⟩
  | nodeRejected => exact .inr ⟨_, _, rfl, rfl, .countedNode⟩
  | asked => exact .inr ⟨_, _, rfl, rfl, .stayed⟩
  | blank => exact .inr ⟨_, _, rfl, rfl, .countedQuestion⟩
  | refused => exact .inr ⟨_, _, rfl, rfl, .countedQuestion⟩
  | grewBack fresh => exact .inr ⟨_, _, rfl, rfl, .prepended answered.symm fresh⟩
  | nothingBefore => exact .inr ⟨_, _, rfl, rfl, .stayed⟩
  | grewAhead fresh => exact .inr ⟨_, _, rfl, rfl, .appended answered.symm fresh⟩
  | nothingAfter => exact .inr ⟨_, _, rfl, rfl, .stayed⟩
  | replaced => exact .inr ⟨_, _, rfl, rfl, .restarted (congrArg firstNode answered.symm)⟩
  | startedOver => exact .inr ⟨_, _, rfl, rfl, .restarted (congrArg firstNode answered.symm)⟩

/-- What a fresh attempt has and every operation preserves, the attempts of a run have. -/
theorem Path.preserves {P : Attempt → Prop}
    (fresh : ∀ t n, firstNode (w.store.sample t 1) = .ok n → P (.on n settings))
    (kept : ∀ a b, Moved w.store a b → P a → P b)
    (path : Path f (.opening settings) calls q) (answered : Trace.AnsweredBy w t calls) :
    ∀ a ∈ q.attempt?, P a := by
  induction path with
  | nil => simp [Stage.attempt?]
  | @snoc calls x q q' path step ih =>
    obtain ⟨before, last⟩ := Trace.answeredBy_append.mp answered
    have hset : q.settings = settings := path.settings
    intro b hb
    obtain ⟨n, settings', rfl, hn, hq'⟩ | ⟨a, b', hq, hq', moved⟩ :=
      step.moved (Trace.answeredBy_singleton.mp last)
    · obtain rfl : settings' = settings := hset
      cases hq'.symm.trans hb
      exact fresh _ n hn
    · cases hq'.symm.trans hb
      exact kept a _ moved (ih before a hq)

theorem Path.coherent (path : Path f (.opening settings) calls q)
    (answered : Trace.AnsweredBy w t calls) : ∀ a ∈ q.attempt?, a.Coherent :=
  path.preserves (fun _ n _ => Attempt.on_coherent n settings)
    (fun _ _ moved ha => moved.coherent ha) answered

theorem Path.embedded {g : Graph} {choose : Chooser} (owns : g.Owns)
    (store : w.store = g.store choose) (path : Path f (.opening settings) calls q)
    (answered : Trace.AnsweredBy w t calls) : ∀ a ∈ q.attempt?, a.Embedded g := by
  refine path.preserves ?_ ?_ answered
  · intro t n hn
    rw [store] at hn
    exact Attempt.on_embedded (Attempt.node?_of_firstNode owns hn) settings
  · intro a b moved ha
    rw [store] at moved
    exact moved.embedded owns ha

end

section

variable {σ : Type} {f : NodeFilter} {settings : Settings} {rounds : Nat} {w : Collaborators}
  {s s' : σ} {t t' : Trace} {e : Evolved}

theorem singleContext_course {outcome : Outcome Evolved}
    (run : singleContext f settings rounds w s t = (outcome, s', t')) :
    ∃ calls, t' = t ++ calls ∧ Course f (.opening settings) rounds calls outcome ∧
      Trace.AnsweredBy w t calls := by
  obtain ⟨outcome', calls, hrun, hcourse⟩ := singleContext_keeps f settings rounds w s t
  obtain ⟨calls', htrace, answered⟩ := singleContext_records f settings rounds w s t
  cases hrun.symm.trans run
  rw [hrun] at htrace
  cases List.append_cancel_left htrace
  exact ⟨calls, rfl, hcourse, answered⟩

theorem composed_of_run {outcome : Outcome Evolved}
    (run : multiContext f settings rounds w s t = (outcome, s', t')) :
    ∃ calls, t' = t ++ calls ∧ Composed f settings rounds w s t calls outcome := by
  obtain ⟨calls, outcome', composed⟩ := Composed.total f settings rounds w s t
  cases composed.run.symm.trans run
  exact ⟨calls, rfl, composed⟩

theorem singleContext_value (run : singleContext f settings rounds w s t = (.value e, s', t')) :
    ∃ calls a question, Path f (.opening settings) calls (.judging a question) ∧
      Trace.AnsweredBy w t calls ∧ e = SingleContext.keep question a := by
  obtain ⟨calls, -, hcourse, answered⟩ := singleContext_course run
  obtain ⟨before, x, q, rfl, path, ends⟩ := hcourse
  cases ends with
  | kept made replied yes =>
    exact ⟨before, _, _, path, (Trace.answeredBy_append.mp answered).1, rfl⟩

theorem multiContext_value (run : multiContext f settings rounds w s t = (.value e, s', t')) :
    Succeeds f settings rounds w s t e := by
  obtain ⟨calls, -, composed⟩ := composed_of_run run
  exact (composed.value_iff e).mp rfl

theorem Rewriting.proper {template : Template} {vars : List (String × String)}
    {step question : String} {x : Exchange}
    (h : Rewriting w t template vars step x (.ok question)) :
    question ≠ "" ∧ Text.Bare question.toList := by
  cases h with
  | @rewritten prompt _ _ replied nonempty =>
    have htext : (Exchange.generate prompt 1 _).text? = some question :=
      Session.text?_of_firstText replied
    exact ⟨nonempty, Exchange.bare_of_text? htext⟩

end

end Evolution

structure Evolved.Proper (kind : Evolution.Kind) (e : Evolved) : Prop where
  question : e.question ≠ ""
  bare : Text.Bare e.question.toList
  contexts : e.contexts ≠ []
  distinct : kind = .simple → (e.contexts.map Node.id).Nodup
  pair : kind = .multiContext → e.contexts.length = 2
  kind : e.kind = kind

namespace Evolution

variable {σ : Type} {f : NodeFilter} {settings : Settings} {rounds : Nat} {w : Collaborators}
  {s s' : σ} {t t' : Trace} {e : Evolved}

theorem singleContext_proper (run : singleContext f settings rounds w s t = (.value e, s', t')) :
    e.Proper .simple := by
  obtain ⟨calls, a, question, path, answered, rfl⟩ := singleContext_value run
  have coherent := path.coherent answered a rfl
  obtain ⟨_, _, _, _, -, -, -, -, -, hseed, nonempty⟩ := path.of_judging
  constructor
  case question => exact nonempty
  case bare => exact Exchange.bare_of_text? hseed
  case contexts => exact List.cons_ne_nil _ _
  case distinct => exact fun _ => coherent.distinct
  case pair => intro multi; cases multi
  case kind => rfl

theorem multiContext_proper (run : multiContext f settings rounds w s t = (.value e, s', t')) :
    e.Proper .multiContext := by
  obtain ⟨_, _, _, _, _, _, _, _, _, _, -, -, -, -, compressing, rfl⟩ := multiContext_value run
  obtain ⟨nonempty, bare⟩ := compressing.proper
  constructor
  case question => exact nonempty
  case bare => exact bare
  case contexts => exact List.cons_ne_nil _ _
  case distinct => intro simple; cases simple
  case pair => exact fun _ => rfl
  case kind => rfl

theorem evolve_proper {kind : Kind}
    (run : evolve kind f settings rounds w s t = (.value e, s', t')) : e.Proper kind := by
  cases kind with
  | simple => exact singleContext_proper run
  | multiContext => exact multiContext_proper run

end Evolution

end QuestionSynthesis
