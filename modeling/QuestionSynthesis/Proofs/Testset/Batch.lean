import QuestionSynthesis.Proofs.Evolution.Answered
import QuestionSynthesis.Proofs.Evolution.Provenance
import QuestionSynthesis.Testset.Batch

/-!
# Batches as sequences of jobs

A job ends in a row, in a skipped row, or in a failure that its evolution or its reference answer
gives (`Job`). A batch is its jobs one after another, each on the history that those before it
leave: either all of them come to an entry (`Ran`), or the first failure ends it (`Stopped`).
-/

namespace QuestionSynthesis

namespace Session

variable {σ α β γ : Type} {w : Collaborators} {s s' : σ} {t t' : Trace}

theorem bind_assoc (m : Session σ α) (f : α → Session σ β) (g : β → Session σ γ) :
    (m >>= f >>= g) = (m >>= fun a => f a >>= g) := by
  funext w s t
  cases hrun : m w s t with
  | mk outcome rest =>
    obtain ⟨s', t'⟩ := rest
    cases outcome with
    | value a =>
      rw [bind_value hrun]
      change Session.bind (m >>= f) g w s t = Session.bind (f a) g w s' t'
      simp only [Session.bind, bind_value hrun]
    | error e => rw [bind_error hrun, bind_error (bind_error hrun)]
    | unfinished => rw [bind_unfinished hrun, bind_unfinished (bind_unfinished hrun)]

theorem map_run {m : Session σ α} (f : α → β) {outcome : Outcome α}
    (h : m w s t = (outcome, s', t')) : (f <$> m) w s t = (outcome.map f, s', t') := by
  change (m >>= fun a => Pure.pure (f a)) w s t = _
  cases outcome with
  | value a => exact bind_value h
  | error e => exact bind_error h
  | unfinished => exact bind_unfinished h

theorem recover_value {m : Session σ α} (f : Error → Session σ α) {a : α}
    (h : m w s t = (.value a, s', t')) : recover m f w s t = (.value a, s', t') := by
  simp only [recover, h]

theorem recover_error {m : Session σ α} (f : Error → Session σ α) {e : Error}
    (h : m w s t = (.error e, s', t')) : recover m f w s t = f e w s' t' := by
  simp only [recover, h]

theorem recover_unfinished {m : Session σ α} (f : Error → Session σ α)
    (h : m w s t = (.unfinished, s', t')) : recover m f w s t = (.unfinished, s', t') := by
  simp only [recover, h]

end Session

namespace Distribution

theorem counts_of_valid {d : Distribution} (valid : d.validate = .ok ()) (n : Nat) :
    ∃ simple multi, d.counts n = .ok (simple, multi) ∧ simple + multi = n := by
  simp only [counts, valid]
  refine ⟨_, _, rfl, ?_⟩
  omega

end Distribution

namespace Testset

theorem Settings.distribution_valid {settings : Settings} (valid : settings.validate = .ok ()) :
    settings.distribution.validate = .ok () := by
  simp only [validate] at valid
  split at valid
  · cases valid
  · split at valid
    · cases valid
    · exact valid

namespace Entry

def row? : Entry → Option TestsetRow
  | .row r => some r
  | .skipped _ => none

def skipped? : Entry → Option SkippedRow
  | .row _ => none
  | .skipped s => some s

def kind : Entry → Evolution.Kind
  | .row r => r.kind
  | .skipped s => s.kind

end Entry

def ofEntries (entries : List Entry) : Testset where
  rows := entries.filterMap Entry.row?
  skipped := entries.filterMap Entry.skipped?

@[simp] theorem ofEntries_row (r : TestsetRow) (entries : List Entry) :
    ofEntries (.row r :: entries) =
      ⟨r :: (ofEntries entries).rows, (ofEntries entries).skipped⟩ :=
  rfl

@[simp] theorem ofEntries_skipped (s : SkippedRow) (entries : List Entry) :
    ofEntries (.skipped s :: entries) =
      ⟨(ofEntries entries).rows, s :: (ofEntries entries).skipped⟩ :=
  rfl

theorem ofEntries_append (before after : List Entry) :
    ofEntries (before ++ after) =
      ⟨(ofEntries before).rows ++ (ofEntries after).rows,
        (ofEntries before).skipped ++ (ofEntries after).skipped⟩ := by
  simp [ofEntries]

theorem ofEntries_length (entries : List Entry) :
    (ofEntries entries).rows.length + (ofEntries entries).skipped.length = entries.length := by
  induction entries with
  | nil => rfl
  | cons entry entries ih =>
    cases entry with
    | row r =>
      simp only [ofEntries_row, List.length_cons]
      omega
    | skipped s =>
      simp only [ofEntries_skipped, List.length_cons]
      omega

theorem ofEntries_kinds {entries : List Entry} {kind : Evolution.Kind}
    (h : ∀ entry ∈ entries, entry.kind = kind) :
    (ofEntries entries).rows.map TestsetRow.kind =
        List.replicate (ofEntries entries).rows.length kind ∧
      (ofEntries entries).skipped.map SkippedRow.kind =
        List.replicate (ofEntries entries).skipped.length kind := by
  induction entries with
  | nil => exact ⟨rfl, rfl⟩
  | cons entry entries ih =>
    rw [List.forall_mem_cons] at h
    obtain ⟨hrows, hskipped⟩ := ih h.2
    cases entry with
    | row r =>
      have hr : r.kind = kind := h.1
      simp [hr, hrows, hskipped, List.replicate_succ]
    | skipped s =>
      have hs : s.kind = kind := h.1
      simp [hs, hrows, hskipped, List.replicate_succ]

section

variable {σ : Type}

abbrev evolve (settings : Settings) (rounds : Nat) (kind : Evolution.Kind) : Session σ Evolved :=
  Evolution.evolve kind ⟨settings.threshold⟩ settings.evolution rounds

/-- A job after a history: its calls, and the entry or the failure that they come to. -/
inductive Job (settings : Settings) (rounds : Nat) (w : Collaborators) (s : σ) (t : Trace)
    (kind : Evolution.Kind) : Trace → Outcome Entry → Prop where
  | row {calls e x answer}
      (evolved : evolve settings rounds kind w s t = (.value e, s, t ++ calls))
      (answered : reference e w s (t ++ calls) = (.value answer, s, t ++ calls ++ [x])) :
      Job settings rounds w s t kind (calls ++ [x])
        (.value (.row (.ofEvolved e answer (w.clock (t ++ calls ++ [x])))))
  | unanswered {calls e x error}
      (evolved : evolve settings rounds kind w s t = (.value e, s, t ++ calls))
      (refused : reference e w s (t ++ calls) = (.error error, s, t ++ calls ++ [x])) :
      Job settings rounds w s t kind (calls ++ [x]) (.error error)
  | skipped {calls error}
      (failed : evolve settings rounds kind w s t = (.error error, s, t ++ calls))
      (content : error.isContentFailure = true) :
      Job settings rounds w s t kind calls (.value (.skipped ⟨kind, error.message⟩))
  | failed {calls error}
      (failed : evolve settings rounds kind w s t = (.error error, s, t ++ calls))
      (serious : error.isContentFailure = false) :
      Job settings rounds w s t kind calls (.error error)
  | unfinished {calls}
      (cut : evolve settings rounds kind w s t = (.unfinished, s, t ++ calls)) :
      Job settings rounds w s t kind calls .unfinished

inductive Ran (settings : Settings) (rounds : Nat) (w : Collaborators) (s : σ) :
    Trace → List Evolution.Kind → Trace → List Entry → Prop where
  | nil {t} : Ran settings rounds w s t [] [] []
  | cons {t kind kinds calls more entry entries}
      (job : Job settings rounds w s t kind calls (.value entry))
      (rest : Ran settings rounds w s (t ++ calls) kinds more entries) :
      Ran settings rounds w s t (kind :: kinds) (calls ++ more) (entry :: entries)

/-- Jobs of which the first that comes to no entry is the last to be run. -/
def Stopped (settings : Settings) (rounds : Nat) (w : Collaborators) (s : σ) (t : Trace)
    (kinds : List Evolution.Kind) (calls : Trace) (outcome : Outcome Entry) : Prop :=
  ∃ before kind after done entries last, kinds = before ++ kind :: after ∧
    Ran settings rounds w s t before done entries ∧
    Job settings rounds w s (t ++ done) kind last outcome ∧ calls = done ++ last

variable {settings : Settings} {rounds : Nat} {w : Collaborators} {s : σ} {t : Trace}
  {kind : Evolution.Kind} {calls : Trace} {outcome : Outcome Entry}

def referenceInputs (e : Evolved) : List (String × String) :=
  [("question", e.question), ("context", Node.mergeContents e.contexts)]

def referenceOf (e : Evolved) (reply : Except Error Completions) : Except Error String :=
  match Session.firstText reply with
  | .error error => .error error
  | .ok answer =>
    if answer.isEmpty then .error (.generation s!"reference answer for '{e.question}' was empty")
    else .ok answer

theorem referenceOf_error {e : Evolved} {reply : Except Error Completions} {error : Error}
    (h : referenceOf e reply = .error error) :
    Session.firstText reply = .error error ∨ ∃ text, error = .generation text := by
  cases htext : Session.firstText reply with
  | error error' =>
    simp only [referenceOf, htext] at h
    exact .inl h
  | ok text =>
    simp only [referenceOf, htext] at h
    by_cases blank : text.isEmpty = true
    · simp only [blank, if_true] at h
      cases h
      exact .inr ⟨_, rfl⟩
    · simp [blank] at h

theorem reference_run (e : Evolved) (w : Collaborators) (s : σ) (t : Trace) :
    ∃ prompt, Template.referenceAnswer.render (referenceInputs e) = .ok prompt ∧
      reference e w s t = (.ofExcept (referenceOf e (w.service.generate t prompt 1)), s,
        t ++ [.generate prompt 1 (w.service.generate t prompt 1)]) := by
  obtain ⟨prompt, rendered⟩ := Template.referenceAnswer.render_of_inputs (referenceInputs e) rfl
  have hreference : reference e = (do
      let answer ← Session.generateText prompt
      if answer.isEmpty then
        Session.fail (.generation s!"reference answer for '{e.question}' was empty")
      else return answer : Session σ String) := by
    funext w s t
    simp only [referenceInputs] at rendered
    simp only [reference, rendered, Session.ofExcept_ok_bind]
  refine ⟨prompt, rendered, ?_⟩
  rw [hreference]
  cases hanswer : Session.firstText (w.service.generate t prompt 1) with
  | error error =>
    simp only [referenceOf, hanswer]
    exact Session.bind_error (Evolution.generateText_of hanswer)
  | ok answer =>
    rw [Session.bind_value (Evolution.generateText_of hanswer)]
    simp only [referenceOf, hanswer]
    split <;> rfl

theorem Job.total (settings : Settings) (rounds : Nat) (w : Collaborators) (s : σ) (t : Trace)
    (kind : Evolution.Kind) : ∃ calls outcome, Job settings rounds w s t kind calls outcome := by
  obtain ⟨outcome, calls, run, -⟩ := Evolution.evolve_traced kind ⟨settings.threshold⟩
    settings.evolution rounds w s t
  cases outcome with
  | value e =>
    obtain ⟨prompt, -, hreference⟩ := reference_run e w s (t ++ calls)
    cases hreply : referenceOf e (w.service.generate (t ++ calls) prompt 1) with
    | ok answer =>
      rw [hreply] at hreference
      exact ⟨_, _, .row run hreference⟩
    | error error =>
      rw [hreply] at hreference
      exact ⟨_, _, .unanswered run hreference⟩
  | error error =>
    cases content : error.isContentFailure with
    | true => exact ⟨_, _, .skipped run content⟩
    | false => exact ⟨_, _, .failed run content⟩
  | unfinished => exact ⟨_, _, .unfinished run⟩

theorem Job.run (h : Job settings rounds w s t kind calls outcome) :
    job settings rounds kind w s t = (outcome, s, t ++ calls) := by
  cases h with
  | row evolved answered =>
    refine (Session.bind_value (Session.recover_value _ (Session.map_run Except.ok evolved))).trans ?_
    rw [← List.append_assoc]
    exact Session.bind_value answered
  | unanswered evolved refused =>
    refine (Session.bind_value (Session.recover_value _ (Session.map_run Except.ok evolved))).trans ?_
    rw [← List.append_assoc]
    exact Session.bind_error refused
  | skipped failed content =>
    refine (Session.bind_value (a := Except.error _) <|
      (Session.recover_error _ (Session.map_run Except.ok failed)).trans ?_).trans rfl
    simp only [content, if_true]
    rfl
  | failed failed serious =>
    refine Session.bind_error ((Session.recover_error _ (Session.map_run Except.ok failed)).trans ?_)
    simp only [serious]
    rfl
  | unfinished cut =>
    exact Session.bind_unfinished (Session.recover_unfinished _ (Session.map_run Except.ok cut))

theorem Job.kind_of_entry {entry : Entry}
    (h : Job settings rounds w s t kind calls (.value entry)) : entry.kind = kind := by
  cases h with
  | row evolved answered => exact (Evolution.evolve_proper evolved).kind
  | skipped failed content => rfl

def runAll (settings : Settings) (rounds : Nat) :
    List Evolution.Kind → Testset → Session σ Testset
  | [], ts => return ts
  | kind :: kinds, ts => do
    let entry ← job settings rounds kind
    runAll settings rounds kinds (ts.add entry)

def Generator.standard : Generator := ⟨{}, rfl⟩

def schedule (simple multi : Nat) : List Evolution.Kind :=
  List.replicate simple .simple ++ List.replicate multi .multiContext

theorem jobs_eq (settings : Settings) (rounds : Nat) (kind : Evolution.Kind) (n : Nat)
    (ts : Testset) :
    (jobs settings rounds kind n ts : Session σ Testset) =
      runAll settings rounds (List.replicate n kind) ts := by
  induction n generalizing ts with
  | zero => rfl
  | succ n ih => simp only [jobs, List.replicate_succ, runAll, ih]

theorem runAll_append (settings : Settings) (rounds : Nat) (before after : List Evolution.Kind)
    (ts : Testset) :
    (runAll settings rounds (before ++ after) ts : Session σ Testset) =
      runAll settings rounds before ts >>= runAll settings rounds after := by
  induction before generalizing ts with
  | nil => rfl
  | cons kind before ih =>
    rw [List.cons_append, runAll, runAll, Session.bind_assoc]
    simp only [ih]

theorem generate_eq (g : Generator) (rounds : Nat) {n simple multi : Nat}
    (shares : g.settings.distribution.counts n = .ok (simple, multi)) :
    (g.generate rounds n : Session σ Testset) =
      runAll g.settings rounds (schedule simple multi) {} := by
  rw [schedule, runAll_append]
  simp only [Generator.generate, shares, jobs_eq]
  rfl

variable {kinds : List Evolution.Kind} {entries : List Entry}

theorem Ran.run (h : Ran settings rounds w s t kinds calls entries) (ts : Testset) :
    runAll settings rounds kinds ts w s t = (.value (entries.foldl add ts), s, t ++ calls) := by
  induction h generalizing ts with
  | nil =>
    rw [List.append_nil]
    rfl
  | cons job rest ih =>
    refine (Session.bind_value job.run).trans ?_
    rw [ih, List.append_assoc, List.foldl_cons]

theorem Stopped.run (h : Stopped settings rounds w s t kinds calls outcome)
    (failed : ∀ entry, outcome ≠ .value entry) (ts : Testset) :
    runAll settings rounds kinds ts w s t = (outcome.map ts.add, s, t ++ calls) := by
  obtain ⟨before, kind, after, done, entries, last, rfl, ran, job, rfl⟩ := h
  rw [runAll_append, Session.bind_value (ran.run ts), ← List.append_assoc]
  cases outcome with
  | value entry => exact absurd rfl (failed entry)
  | error e => exact Session.bind_error job.run
  | unfinished => exact Session.bind_unfinished job.run

theorem Stopped.cons {kind : Evolution.Kind} {more : Trace} {entry : Entry}
    (job : Job settings rounds w s t kind calls (.value entry))
    (h : Stopped settings rounds w s (t ++ calls) kinds more outcome) :
    Stopped settings rounds w s t (kind :: kinds) (calls ++ more) outcome := by
  obtain ⟨before, kind', after, done, entries, last, rfl, ran, stop, rfl⟩ := h
  rw [List.append_assoc] at stop
  exact ⟨kind :: before, kind', after, calls ++ done, entry :: entries, last, rfl,
    .cons job ran, stop, (List.append_assoc ..).symm⟩

theorem ran_or_stopped (settings : Settings) (rounds : Nat) (w : Collaborators) (s : σ)
    (kinds : List Evolution.Kind) (t : Trace) :
    (∃ calls entries, Ran settings rounds w s t kinds calls entries) ∨
      ∃ calls outcome, Stopped settings rounds w s t kinds calls outcome ∧
        ∀ entry, outcome ≠ .value entry := by
  -- Along the kinds, for every history: each job begins where the one before it ended.
  induction kinds generalizing t with
  | nil => exact .inl ⟨[], [], .nil⟩
  | cons kind kinds ih =>
    obtain ⟨calls, outcome, job⟩ := Job.total settings rounds w s t kind
    by_cases failed : ∀ entry, outcome ≠ .value entry
    · exact .inr ⟨calls, outcome, ⟨[], kind, kinds, [], [], calls, rfl, .nil, by simpa using job,
        rfl⟩, failed⟩
    · simp only [not_forall, not_not] at failed
      obtain ⟨entry, rfl⟩ := failed
      cases ih (t ++ calls) with
      | inl ran =>
        obtain ⟨more, entries, ran⟩ := ran
        exact .inl ⟨_, _, .cons job ran⟩
      | inr stopped =>
        obtain ⟨more, outcome, stopped, failed⟩ := stopped
        exact .inr ⟨_, _, .cons job stopped, failed⟩

variable {out : Outcome Testset}

theorem Ran.kinds_eq (h : Ran settings rounds w s t kinds calls entries) :
    entries.map Entry.kind = kinds := by
  induction h with
  | nil => rfl
  | cons job rest ih => rw [List.map_cons, job.kind_of_entry, ih]

theorem Ran.shares {simple multi : Nat}
    (h : Ran settings rounds w s t (schedule simple multi) calls entries) :
    ∃ a b c d, (ofEntries entries).rows.map TestsetRow.kind = schedule a b ∧
      (ofEntries entries).skipped.map SkippedRow.kind = schedule c d ∧
      a + c = simple ∧ b + d = multi := by
  obtain ⟨first, second, rfl, hfirst, hsecond⟩ := List.map_eq_append_iff.mp h.kinds_eq
  obtain ⟨hsimple, allSimple⟩ := List.eq_replicate_iff.mp hfirst
  obtain ⟨hmulti, allMulti⟩ := List.eq_replicate_iff.mp hsecond
  obtain ⟨hr, hs⟩ := ofEntries_kinds (List.forall_mem_map.mp allSimple)
  obtain ⟨hr', hs'⟩ := ofEntries_kinds (List.forall_mem_map.mp allMulti)
  rw [List.length_map] at hsimple hmulti
  refine ⟨_, _, _, _, ?_, ?_, (ofEntries_length first).trans hsimple,
    (ofEntries_length second).trans hmulti⟩
  · rw [ofEntries_append, List.map_append, hr, hr']
    rfl
  · rw [ofEntries_append, List.map_append, hs, hs']
    rfl

end

end Testset

end QuestionSynthesis
