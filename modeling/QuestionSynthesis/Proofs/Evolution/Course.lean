import QuestionSynthesis.Evolution.SingleContext
import QuestionSynthesis.Proofs.Evolution.Attempt

/-!
# The course of an evolution

The calls of an evolution about one window, told without its program. A run is always at a stage,
which fixes the next call to the letter; the answer to that call leads to another stage (`Step`) or
ends the run (`Ends`). The window and the counters at a stage are those of an attempt, rebuilt from
the answers alone, so a history of exchanges leads to one stage at most (`Path.stage_unique`).
-/

namespace QuestionSynthesis

theorem Trace.last_or_before {before after calls : Trace} {x z : Exchange}
    (h : before ++ x :: after = calls ++ [z]) :
    (before = calls ∧ x = z ∧ after = []) ∨ ∃ middle, calls = before ++ x :: middle := by
  rcases List.eq_nil_or_concat after with rfl | ⟨middle, y, rfl⟩
  · obtain ⟨rfl, rfl⟩ := by simpa using List.append_inj' h rfl
    exact .inl ⟨rfl, rfl, rfl⟩
  · have hsnoc : (before ++ x :: middle) ++ [y] = calls ++ [z] := by simpa using h
    exact .inr ⟨middle, (List.append_inj_left' hsnoc rfl).symm⟩

def NodeFilter.passes (f : NodeFilter) (reply : String) : Bool :=
  (NodeVerdict.ofScore (scoreOf (StructuredReply.load reply).members) f.threshold).passed

def QuestionFilter.passes (reply : String) : Bool :=
  accepts (StructuredReply.load reply).members

namespace Evolution

inductive Stage where
  | opening (settings : Settings)
  | scoring (a : Attempt)
  | seeding (a : Attempt)
  | judging (a : Attempt) (question : String)
  | lookingBack (a : Attempt)
  | lookingAhead (a : Attempt)
  | replacing (a : Attempt)
  | startingOver (a : Attempt)

namespace Stage

/-- The exchange is an answer to the call that the stage makes. -/
inductive Makes : Stage → Exchange → Prop where
  | opening {settings answer} : Makes (.opening settings) (.sample 1 answer)
  | scoring {a prompt answer}
      (rendered : Template.contextScoring.render [("context", a.front.content)] = .ok prompt) :
      Makes (.scoring a) (.generate prompt 1 answer)
  | seeding {a prompt answer}
      (rendered : Template.seedQuestion.render
        [("context", a.context), ("style", a.settings.style.describe),
          ("length", a.settings.length.describe)] = .ok prompt) :
      Makes (.seeding a) (.generate prompt 1 answer)
  | judging {a question prompt answer}
      (rendered : Template.filterQuestion.render [("question", question)] = .ok prompt) :
      Makes (.judging a question) (.generate prompt 1 answer)
  | lookingBack {a answer} : Makes (.lookingBack a) (.adjacent a.front.id .prev answer)
  | lookingAhead {a answer} : Makes (.lookingAhead a) (.adjacent a.last.id .next answer)
  | replacing {a answer} : Makes (.replacing a) (.sample 1 answer)
  | startingOver {a answer} : Makes (.startingOver a) (.sample 1 answer)

end Stage

open Stage (Makes)

variable {f : NodeFilter}

inductive Step (f : NodeFilter) : Stage → Exchange → Stage → Prop where
  | opened {settings n more} :
      Step f (.opening settings) (.sample 1 (.ok (n :: more))) (.scoring (.on n settings))
  | nodePassed {a x reply} (made : Makes (.scoring a) x) (answered : x.text? = some reply)
      (yes : f.passes reply = true) : Step f (.scoring a) x (.seeding a)
  | nodeRejected {a x reply} (made : Makes (.scoring a) x) (answered : x.text? = some reply)
      (no : f.passes reply = false) (room : ∀ max ∈ a.settings.maxResamples, a.resamples < max) :
      Step f (.scoring a) x (.replacing a.countNode)
  | asked {a x question} (made : Makes (.seeding a) x) (answered : x.text? = some question)
      (nonempty : question ≠ "") : Step f (.seeding a) x (.judging a question)
  | blank {a x} (made : Makes (.seeding a) x) (answered : x.text? = some "")
      (room : a.tries < a.settings.maxTries) :
      Step f (.seeding a) x (.lookingBack a.countQuestion)
  | refused {a question x reply} (made : Makes (.judging a question) x)
      (answered : x.text? = some reply) (no : QuestionFilter.passes reply = false)
      (room : a.tries < a.settings.maxTries) :
      Step f (.judging a question) x (.lookingBack a.countQuestion)
  | grewBack {a n} (fresh : a.contains n.id = false) :
      Step f (.lookingBack a) (.adjacent a.front.id .prev (.ok (some n))) (.scoring (a.prepend n))
  | nothingBefore {a found} (known : ∀ n ∈ found, a.contains n.id = true) :
      Step f (.lookingBack a) (.adjacent a.front.id .prev (.ok found)) (.lookingAhead a)
  | grewAhead {a n} (fresh : a.contains n.id = false) :
      Step f (.lookingAhead a) (.adjacent a.last.id .next (.ok (some n))) (.scoring (a.append n))
  | nothingAfter {a found} (known : ∀ n ∈ found, a.contains n.id = true) :
      Step f (.lookingAhead a) (.adjacent a.last.id .next (.ok found)) (.startingOver a)
  | replaced {a n more} :
      Step f (.replacing a) (.sample 1 (.ok (n :: more))) (.scoring (a.restart n))
  | startedOver {a n more} :
      Step f (.startingOver a) (.sample 1 (.ok (n :: more))) (.scoring (a.restart n))

inductive Ends (f : NodeFilter) : Stage → Exchange → Except Error Evolved → Prop where
  | failed {q x e} (made : Makes q x) (answered : x.error? = some e) : Ends f q x (.error e)
  | noNode {q} (made : Makes q (.sample 1 (.ok []))) :
      Ends f q (.sample 1 (.ok [])) (.error (.insufficientNodes 1 0))
  | noCompletion {q prompt completions} (made : Makes q (.generate prompt 1 (.ok completions)))
      (none : completions.firstText? = none) :
      Ends f q (.generate prompt 1 (.ok completions)) (.error .noCompletions)
  | nodesSpent {a x reply max} (made : Makes (.scoring a) x) (answered : x.text? = some reply)
      (no : f.passes reply = false) (bounded : a.settings.maxResamples = some max)
      (spent : max ≤ a.resamples) :
      Ends f (.scoring a) x (.error (.resamplesExhausted (a.resamples + 1)))
  | blankSpent {a x} (made : Makes (.seeding a) x) (answered : x.text? = some "")
      (spent : a.settings.maxTries ≤ a.tries) :
      Ends f (.seeding a) x (.error (.retriesExhausted (a.tries + 1) a.settings.maxTries))
  | refusedSpent {a question x reply} (made : Makes (.judging a question) x)
      (answered : x.text? = some reply) (no : QuestionFilter.passes reply = false)
      (spent : a.settings.maxTries ≤ a.tries) :
      Ends f (.judging a question) x (.error (.retriesExhausted (a.tries + 1) a.settings.maxTries))
  | kept {a question x reply} (made : Makes (.judging a question) x)
      (answered : x.text? = some reply) (yes : QuestionFilter.passes reply = true) :
      Ends f (.judging a question) x (.ok (SingleContext.keep question a))

inductive Path (f : NodeFilter) (q : Stage) : Trace → Stage → Prop where
  | nil : Path f q [] q
  | snoc {calls x q' q''} (path : Path f q calls q') (step : Step f q' x q'') :
      Path f q (calls ++ [x]) q''

def Ended (f : NodeFilter) (q : Stage) (calls : Trace) (r : Except Error Evolved) : Prop :=
  ∃ before x q', calls = before ++ [x] ∧ Path f q before q' ∧ Ends f q' x r

theorem Step.makes {q q' : Stage} {x : Exchange} (h : Step f q x q') : Makes q x := by
  cases h with
  | opened => exact .opening
  | nodePassed made => exact made
  | nodeRejected made => exact made
  | asked made => exact made
  | blank made => exact made
  | refused made => exact made
  | grewBack => exact .lookingBack
  | nothingBefore => exact .lookingBack
  | grewAhead => exact .lookingAhead
  | nothingAfter => exact .lookingAhead
  | replaced => exact .replacing
  | startedOver => exact .startingOver

theorem Ends.makes {q : Stage} {x : Exchange} {r : Except Error Evolved} (h : Ends f q x r) :
    Makes q x := by
  cases h <;> assumption

theorem Step.error?_eq_none {q q' : Stage} {x : Exchange} (h : Step f q x q') :
    x.error? = none := by
  cases h <;> first | rfl | exact Exchange.error?_of_text? ‹_›

namespace Path

theorem single {q q' : Stage} {x : Exchange} (step : Step f q x q') : Path f q [x] q' :=
  .snoc .nil step

theorem append {q q' q'' : Stage} {calls more : Trace} (h : Path f q calls q')
    (h' : Path f q' more q'') : Path f q (calls ++ more) q'' := by
  induction h' with
  | nil => simpa using h
  | snoc _ step ih => rw [← List.append_assoc]; exact ih.snoc step

theorem of_nil {q q' : Stage} (h : Path f q [] q') : q' = q := by
  generalize hc : ([] : Trace) = calls at h
  cases h with
  | nil => rfl
  | snoc => simp at hc

theorem of_snoc {q q'' : Stage} {calls : Trace} {x : Exchange} (h : Path f q (calls ++ [x]) q'') :
    ∃ q', Path f q calls q' ∧ Step f q' x q'' := by
  generalize hc : calls ++ [x] = all at h
  cases h with
  | nil => simp at hc
  | snoc path step =>
    obtain ⟨rfl, rfl⟩ := by simpa using List.append_inj' hc rfl
    exact ⟨_, path, step⟩

theorem split {q q'' : Stage} {before after : Trace} {x : Exchange}
    (h : Path f q (before ++ x :: after) q'') : ∃ q', Path f q before q' ∧ Makes q' x := by
  generalize hc : before ++ x :: after = calls at h
  induction h generalizing after with
  | nil => simp at hc
  | @snoc calls z q₁ q₂ path step ih =>
    obtain ⟨rfl, rfl, -⟩ | ⟨middle, hcalls⟩ := Trace.last_or_before hc
    · exact ⟨_, path, step.makes⟩
    · exact ih hcalls.symm

end Path

theorem Ends.ended {q : Stage} {x : Exchange} {r : Except Error Evolved} (h : Ends f q x r) :
    Ended f q [x] r :=
  ⟨[], x, q, rfl, .nil, h⟩

theorem Path.ended {q q' : Stage} {calls more : Trace} {r : Except Error Evolved}
    (h : Path f q calls q') (h' : Ended f q' more r) : Ended f q (calls ++ more) r := by
  obtain ⟨before, x, p, rfl, path, ends⟩ := h'
  exact ⟨calls ++ before, x, p, (List.append_assoc ..).symm, h.append path, ends⟩

theorem Ended.split {q : Stage} {before after : Trace} {x : Exchange} {r : Except Error Evolved}
    (h : Ended f q (before ++ x :: after) r) : ∃ q', Path f q before q' ∧ Makes q' x := by
  obtain ⟨calls, y, q', hc, path, ends⟩ := h
  obtain ⟨rfl, rfl, -⟩ | ⟨middle, rfl⟩ := Trace.last_or_before hc
  · exact ⟨q', path, ends.makes⟩
  · exact path.split

end Evolution

end QuestionSynthesis
