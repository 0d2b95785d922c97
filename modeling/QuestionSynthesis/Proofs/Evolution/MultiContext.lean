import QuestionSynthesis.Evolution.MultiContext
import QuestionSynthesis.Proofs.Evolution.SingleContext

/-!
# The course of an evolution about two contexts

A run draws its anchor, goes through a whole evolution about one window, and closes with at most
three calls about the anchor: `Composed`, with its closing calls in `Tail`. Both are told from the
answers of the collaborators, one constructor for each exit. `Composed.total` and `Composed.run`
say that every run is composed in exactly one way.
-/

namespace QuestionSynthesis

open Session (firstNode firstText)

def Error.emptyQuestion (step : String) : Error := .generation s!"{step} returned an empty question"

namespace Evolution

variable {σ : Type} {w : Collaborators} {s : σ} {t : Trace}

/-- A request to rewrite a question, and what it comes to: the trimmed reply unless it is blank. -/
inductive Rewriting (w : Collaborators) (t : Trace) (template : Template)
    (vars : List (String × String)) (step : String) : Exchange → Except Error String → Prop where
  | rewritten {prompt reply} (rendered : template.render vars = .ok prompt)
      (replied : firstText (w.service.generate t prompt 1) = .ok reply) (nonempty : reply ≠ "") :
      Rewriting w t template vars step (.generate prompt 1 (w.service.generate t prompt 1))
        (.ok reply)
  | blank {prompt} (rendered : template.render vars = .ok prompt)
      (replied : firstText (w.service.generate t prompt 1) = .ok "") :
      Rewriting w t template vars step (.generate prompt 1 (w.service.generate t prompt 1))
        (.error (.emptyQuestion step))
  | failed {prompt e} (rendered : template.render vars = .ok prompt)
      (refused : firstText (w.service.generate t prompt 1) = .error e) :
      Rewriting w t template vars step (.generate prompt 1 (w.service.generate t prompt 1))
        (.error e)

theorem Rewriting.total (w : Collaborators) (t : Trace) (template : Template)
    (vars : List (String × String)) (step : String)
    (supplied : vars.map Prod.fst = template.inputs) :
    ∃ x r, Rewriting w t template vars step x r := by
  obtain ⟨prompt, rendered⟩ := template.render_of_inputs vars supplied
  cases h : firstText (w.service.generate t prompt 1) with
  | error e => exact ⟨_, _, .failed rendered h⟩
  | ok reply =>
    by_cases hr : reply = ""
    · subst hr
      exact ⟨_, _, .blank rendered h⟩
    · exact ⟨_, _, .rewritten rendered h hr⟩

theorem nonEmpty_of_ne {step text : String} (h : text ≠ "") :
    (nonEmpty step text : Session σ String) w s t = (.value text, s, t) := by
  have hne : text.isEmpty = false := by simpa using h
  simp only [nonEmpty, hne]
  rfl

theorem generateText_of {prompt : String} {r : Except Error String}
    (h : firstText (w.service.generate t prompt 1) = r) :
    (Session.generateText prompt : Session σ String) w s t =
      (.ofExcept r, s, t ++ [.generate prompt 1 (w.service.generate t prompt 1)]) := by
  rw [Session.generateText_run, h]

theorem Rewriting.run {template : Template} {vars : List (String × String)} {step : String}
    {x : Exchange} {r : Except Error String}
    (h : Rewriting w t template vars step x r) :
    (do
      let prompt ← Session.ofExcept (template.render vars)
      nonEmpty step (← Session.generateText prompt) : Session σ String) w s t =
      (.ofExcept r, s, t ++ [x]) := by
  cases h with
  | rewritten rendered replied nonempty =>
    simp only [rendered, Session.ofExcept_ok_bind]
    rw [Session.bind_value (generateText_of replied), nonEmpty_of_ne nonempty]
    rfl
  | blank rendered replied =>
    simp only [rendered, Session.ofExcept_ok_bind]
    rw [Session.bind_value (generateText_of replied)]
    rfl
  | failed rendered refused =>
    simp only [rendered, Session.ofExcept_ok_bind]
    rw [Session.bind_error (generateText_of refused)]
    rfl

abbrev Merging (w : Collaborators) (t : Trace) (question : String) (anchor other : Node) :
    Exchange → Except Error String → Prop :=
  Rewriting w t .multiContextQuestion
    [("question", question), ("context1", anchor.content), ("context2", other.content)]
    "multi-context rewrite"

abbrev Compressing (w : Collaborators) (t : Trace) (question : String) :
    Exchange → Except Error String → Prop :=
  Rewriting w t .compressQuestion [("question", question)] "compression"

theorem reconcile_run {question : String} {anchor other : Node} {x : Exchange}
    {r : Except Error String} (h : Merging w t question anchor other x r) :
    (reconcile question anchor other : Session σ String) w s t = (.ofExcept r, s, t ++ [x]) :=
  h.run

theorem compress_run {question : String} {x : Exchange} {r : Except Error String}
    (h : Compressing w t question x r) :
    (compress question : Session σ String) w s t = (.ofExcept r, s, t ++ [x]) :=
  h.run

def nearest (anchor : NodeId) : Except Error (List Node) → Except Error Node
  | .ok (n :: _) => .ok n
  | .ok [] => .error (.noSimilarContext anchor)
  | .error e => .error e

theorem mostSimilar_run {anchor : NodeId} {answer : Except Error (List Node)}
    (h : w.store.similar t anchor = answer) :
    (mostSimilar anchor : Session σ Node) w s t =
      (.ofExcept (nearest anchor answer), s, t ++ [.similar anchor answer]) := by
  have hs : (Session.similar anchor : Session σ (List Node)) w s t =
      (.ofExcept answer, s, t ++ [.similar anchor answer]) := by
    simp only [Session.similar, h]
  cases answer with
  | error e => exact Session.bind_error hs
  | ok nodes => cases nodes <;> exact Session.bind_value hs

def across (anchor other : Node) (seed : Evolved) (question : String) : Evolved where
  question := question
  contexts := [anchor, other]
  root := anchor.id
  kind := .multiContext
  tries := seed.tries
  resamples := seed.resamples

/-- The calls after the seed question, each with the answer at its place, and what they come to. -/
inductive Tail (w : Collaborators) (anchor : Node) (seed : Evolved) (t : Trace) :
    Trace → Except Error Evolved → Prop where
  | unrelated {e} (refused : w.store.similar t anchor.id = .error e) :
      Tail w anchor seed t [.similar anchor.id (.error e)] (.error e)
  | alone (related : w.store.similar t anchor.id = .ok []) :
      Tail w anchor seed t [.similar anchor.id (.ok [])] (.error (.noSimilarContext anchor.id))
  | unmerged {other more x e} (related : w.store.similar t anchor.id = .ok (other :: more))
      (merging : Merging w (t ++ [.similar anchor.id (.ok (other :: more))]) seed.question anchor
        other x (.error e)) :
      Tail w anchor seed t [.similar anchor.id (.ok (other :: more)), x] (.error e)
  | uncompressed {other more x merged y e}
      (related : w.store.similar t anchor.id = .ok (other :: more))
      (merging : Merging w (t ++ [.similar anchor.id (.ok (other :: more))]) seed.question anchor
        other x (.ok merged))
      (compressing : Compressing w (t ++ [.similar anchor.id (.ok (other :: more)), x]) merged y
        (.error e)) :
      Tail w anchor seed t [.similar anchor.id (.ok (other :: more)), x, y] (.error e)
  | kept {other more x merged y question}
      (related : w.store.similar t anchor.id = .ok (other :: more))
      (merging : Merging w (t ++ [.similar anchor.id (.ok (other :: more))]) seed.question anchor
        other x (.ok merged))
      (compressing : Compressing w (t ++ [.similar anchor.id (.ok (other :: more)), x]) merged y
        (.ok question)) :
      Tail w anchor seed t [.similar anchor.id (.ok (other :: more)), x, y]
        (.ok (across anchor other seed question))

theorem Tail.total (w : Collaborators) (anchor : Node) (seed : Evolved) (t : Trace) :
    ∃ calls r, Tail w anchor seed t calls r := by
  rcases related : w.store.similar t anchor.id with e | _ | ⟨other, more⟩
  · exact ⟨_, _, .unrelated related⟩
  · exact ⟨_, _, .alone related⟩
  · obtain ⟨x, r, merging⟩ := Rewriting.total w (t ++ [.similar anchor.id (.ok (other :: more))])
      .multiContextQuestion [("question", seed.question), ("context1", anchor.content),
        ("context2", other.content)] "multi-context rewrite" rfl
    cases r with
    | error e => exact ⟨_, _, .unmerged related merging⟩
    | ok merged =>
      obtain ⟨y, r, compressing⟩ := Rewriting.total w
        (t ++ [.similar anchor.id (.ok (other :: more)), x]) .compressQuestion
        [("question", merged)] "compression" rfl
      cases r with
      | error e => exact ⟨_, _, .uncompressed related merging compressing⟩
      | ok question => exact ⟨_, _, .kept related merging compressing⟩

def close {σ : Type} (anchor : Node) (seed : Evolved) : Session σ Evolved := do
  let other ← mostSimilar anchor.id
  let merged ← reconcile seed.question anchor other
  let question ← compress merged
  return across anchor other seed question

theorem Tail.run {anchor : Node} {seed : Evolved} {calls : Trace} {r : Except Error Evolved}
    (h : Tail w anchor seed t calls r) :
    (close anchor seed : Session σ Evolved) w s t = (.ofExcept r, s, t ++ calls) := by
  cases h with
  | unrelated refused => exact Session.bind_error (mostSimilar_run refused)
  | alone related => exact Session.bind_error (mostSimilar_run related)
  | unmerged related merging =>
    rw [close, Session.bind_value (mostSimilar_run related),
      Session.bind_error (reconcile_run merging), List.append_assoc]
    rfl
  | uncompressed related merging compressing =>
    have hreconcile := reconcile_run (s := s) merging
    rw [List.append_assoc, List.singleton_append] at hreconcile
    rw [close, Session.bind_value (mostSimilar_run related), Session.bind_value hreconcile,
      Session.bind_error (compress_run compressing), List.append_assoc]
    rfl
  | kept related merging compressing =>
    have hreconcile := reconcile_run (s := s) merging
    rw [List.append_assoc, List.singleton_append] at hreconcile
    rw [close, Session.bind_value (mostSimilar_run related), Session.bind_value hreconcile,
      Session.bind_value (compress_run compressing), List.append_assoc]
    rfl

/-- The calls of a run about two contexts, and how it ends. -/
inductive Composed {σ : Type} (f : NodeFilter) (settings : Settings) (rounds : Nat)
    (w : Collaborators) (s : σ) (t : Trace) : Trace → Outcome Evolved → Prop where
  | noAnchor {e} (refused : firstNode (w.store.sample t 1) = .error e) :
      Composed f settings rounds w s t [.sample 1 (w.store.sample t 1)] (.error e)
  | noSeed {anchor more calls outcome} (sampled : w.store.sample t 1 = .ok (anchor :: more))
      (run : singleContext f settings rounds w s (t ++ [.sample 1 (.ok (anchor :: more))]) =
        (outcome, s, t ++ .sample 1 (.ok (anchor :: more)) :: calls))
      (unseeded : ∀ seed, outcome ≠ .value seed) :
      Composed f settings rounds w s t (.sample 1 (.ok (anchor :: more)) :: calls) outcome
  | closed {anchor more calls seed closing r}
      (sampled : w.store.sample t 1 = .ok (anchor :: more))
      (run : singleContext f settings rounds w s (t ++ [.sample 1 (.ok (anchor :: more))]) =
        (.value seed, s, t ++ .sample 1 (.ok (anchor :: more)) :: calls))
      (tail : Tail w anchor seed (t ++ .sample 1 (.ok (anchor :: more)) :: calls) closing r) :
      Composed f settings rounds w s t (.sample 1 (.ok (anchor :: more)) :: (calls ++ closing))
        (.ofExcept r)

variable {f : NodeFilter} {settings : Settings} {rounds : Nat}

theorem Composed.total (f : NodeFilter) (settings : Settings) (rounds : Nat) (w : Collaborators)
    (s : σ) (t : Trace) : ∃ calls outcome, Composed f settings rounds w s t calls outcome := by
  rcases sampled : w.store.sample t 1 with e | _ | ⟨anchor, more⟩
  · exact ⟨_, _, .noAnchor (by rw [sampled]; rfl)⟩
  · exact ⟨_, _, .noAnchor (by rw [sampled]; rfl)⟩
  · obtain ⟨outcome, calls, run, -⟩ := singleContext_keeps f settings rounds w s
      (t ++ [.sample 1 (.ok (anchor :: more))])
    rw [List.append_assoc, List.singleton_append] at run
    cases outcome with
    | value seed =>
      obtain ⟨tail, r, htail⟩ := Tail.total w anchor seed
        (t ++ .sample 1 (.ok (anchor :: more)) :: calls)
      exact ⟨_, _, .closed sampled run htail⟩
    | error e => exact ⟨_, _, .noSeed sampled run (by simp)⟩
    | unfinished => exact ⟨_, _, .noSeed sampled run (by simp)⟩

theorem sampleOne_cons {anchor : Node} {more : List Node}
    (sampled : w.store.sample t 1 = .ok (anchor :: more)) :
    (Session.sampleOne : Session σ Node) w s t =
      (.value anchor, s, t ++ [.sample 1 (.ok (anchor :: more))]) := by
  rw [Session.sampleOne_run, sampled]
  rfl

theorem Composed.run {calls : Trace} {outcome : Outcome Evolved}
    (h : Composed f settings rounds w s t calls outcome) :
    multiContext f settings rounds w s t = (outcome, s, t ++ calls) := by
  cases h with
  | noAnchor refused =>
    have hs := Session.sampleOne_run w s t
    rw [refused] at hs
    exact Session.bind_error hs
  | noSeed sampled run unseeded =>
    rw [multiContext, Session.bind_value (sampleOne_cons sampled)]
    cases outcome with
    | value seed => exact absurd rfl (unseeded seed)
    | error e => exact Session.bind_error run
    | unfinished => exact Session.bind_unfinished run
  | closed sampled run tail =>
    rw [multiContext, Session.bind_value (sampleOne_cons sampled), Session.bind_value run]
    have htail := tail.run (s := s)
    rw [List.append_assoc, List.cons_append] at htail
    exact htail

theorem Composed.unique {calls calls' : Trace} {outcome outcome' : Outcome Evolved}
    (h : Composed f settings rounds w s t calls outcome)
    (h' : Composed f settings rounds w s t calls' outcome') :
    calls' = calls ∧ outcome' = outcome := by
  have hrun := h'.run.symm.trans h.run
  simp only [Prod.mk.injEq, List.append_cancel_left_eq, true_and] at hrun
  exact hrun.symm

def Succeeds {σ : Type} (f : NodeFilter) (settings : Settings) (rounds : Nat) (w : Collaborators)
    (s : σ) (t : Trace) (e : Evolved) : Prop :=
  ∃ anchor more calls seed other others x merged y question,
    w.store.sample t 1 = .ok (anchor :: more) ∧
    singleContext f settings rounds w s (t ++ [.sample 1 (.ok (anchor :: more))]) =
      (.value seed, s, t ++ .sample 1 (.ok (anchor :: more)) :: calls) ∧
    w.store.similar (t ++ .sample 1 (.ok (anchor :: more)) :: calls) anchor.id =
      .ok (other :: others) ∧
    Merging w (t ++ .sample 1 (.ok (anchor :: more)) :: calls ++
      [.similar anchor.id (.ok (other :: others))]) seed.question anchor other x (.ok merged) ∧
    Compressing w (t ++ .sample 1 (.ok (anchor :: more)) :: calls ++
      [.similar anchor.id (.ok (other :: others)), x]) merged y (.ok question) ∧
    e = across anchor other seed question

theorem Composed.value_iff {calls : Trace} {outcome : Outcome Evolved}
    (h : Composed f settings rounds w s t calls outcome) (e : Evolved) :
    outcome = .value e ↔ Succeeds f settings rounds w s t e := by
  constructor
  · rintro rfl
    generalize ho : Outcome.value e = outcome at h
    cases h with
    | noAnchor => cases ho
    | noSeed _ _ unseeded => exact absurd ho.symm (unseeded e)
    | closed sampled run tail =>
      cases tail with
      | kept related merging compressing =>
        cases ho
        exact ⟨_, _, _, _, _, _, _, _, _, _, sampled, run, related, merging, compressing, rfl⟩
      | _ => cases ho
  · rintro ⟨anchor, more, calls', seed, other, others, x, merged, y, question, sampled, run,
      related, merging, compressing, rfl⟩
    exact (h.unique (.closed sampled run (.kept related merging compressing))).2.symm

/-- An evolution about two contexts is one sample, a whole evolution about one window on the history
after it, and the closing calls; it has a value exactly if every part of it succeeds. -/
theorem multiContext_composed {σ : Type} (f : NodeFilter) (settings : Settings) (rounds : Nat)
    (w : Collaborators) (s : σ) (t : Trace) :
    ∃ outcome calls, multiContext f settings rounds w s t = (outcome, s, t ++ calls) ∧
      (∀ outcome' calls', Composed f settings rounds w s t calls' outcome' ↔
        calls' = calls ∧ outcome' = outcome) ∧
      ∀ e, outcome = .value e ↔ Succeeds f settings rounds w s t e := by
  obtain ⟨calls, outcome, h⟩ := Composed.total f settings rounds w s t
  refine ⟨outcome, calls, h.run, fun outcome' calls' => ⟨h.unique, ?_⟩, h.value_iff⟩
  rintro ⟨rfl, rfl⟩
  exact h

end Evolution

end QuestionSynthesis
