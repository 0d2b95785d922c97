import QuestionSynthesis.Proofs.Evolution.Ledger
import QuestionSynthesis.Proofs.Evolution.SingleContext

/-!
# Budgets of a run

A run raises an exhausted budget exactly when the rejection beyond it happens, and makes no call
after that one.
-/

namespace QuestionSynthesis

def Trace.Served (calls : Trace) : Prop := ∀ x ∈ calls, x.error? = none

/-- The history ends with its `n`-th exchange of a sort. -/
def Trace.EndsAt (p : Exchange → Bool) (n : Nat) (calls : Trace) : Prop :=
  ∃ before x, calls = before ++ [x] ∧ p x = true ∧ before.countP p + 1 = n

namespace Evolution

open Stage (Makes)

variable {f : NodeFilter} {settings : Settings} {q : Stage} {x : Exchange} {calls : Trace}
  {r : Except Error Evolved} {rounds : Nat} {outcome : Outcome Evolved}

theorem Ends.of_rejectsQuestion (h : Ends f q x r) (hx : x.rejectsQuestion = true) :
    x.error? = none ∧ q.settings.maxTries ≤ q.tries ∧
      r = .error (.retriesExhausted (q.tries + 1) q.settings.maxTries) := by
  have hk := h.makes.kind
  have served := Exchange.error?_of_rejectsQuestion hx
  cases h with
  | failed _ answered => simp [served] at answered
  | blankSpent _ _ spent => exact ⟨served, spent, rfl⟩
  | refusedSpent _ _ _ spent => exact ⟨served, spent, rfl⟩
  | _ => simp_all [Exchange.rejectsQuestion, Exchange.text?, Stage.kind]

theorem Ends.rejectsQuestion {tries maxTries : Nat}
    (h : Ends f q x (.error (.retriesExhausted tries maxTries))) (served : x.error? = none) :
    x.rejectsQuestion = true ∧ q.settings.maxTries ≤ q.tries := by
  have hk := h.makes.kind
  cases h with
  | failed _ answered => simp [served] at answered
  | blankSpent _ answered spent =>
    exact ⟨by simp [Exchange.rejectsQuestion, hk, answered, Stage.kind], spent⟩
  | refusedSpent _ answered no spent =>
    exact ⟨by simp [Exchange.rejectsQuestion, hk, answered, no, Stage.kind], spent⟩

theorem Ends.of_rejectsNode (h : Ends f q x r) (hx : x.rejectsNode f = true) :
    x.error? = none ∧ (∃ max, q.settings.maxResamples = some max ∧ max ≤ q.resamples) ∧
      r = .error (.resamplesExhausted (q.resamples + 1)) := by
  have hk := h.makes.kind
  have served := Exchange.error?_of_rejectsNode hx
  cases h with
  | failed _ answered => simp [served] at answered
  | nodesSpent _ _ _ bounded spent => exact ⟨served, ⟨_, bounded, spent⟩, rfl⟩
  | _ => simp_all [Exchange.rejectsNode, Exchange.text?, Stage.kind]

theorem Ends.rejectsNode {resamples : Nat}
    (h : Ends f q x (.error (.resamplesExhausted resamples))) (served : x.error? = none) :
    x.rejectsNode f = true ∧ ∃ max, q.settings.maxResamples = some max ∧ max ≤ q.resamples := by
  have hk := h.makes.kind
  cases h with
  | failed _ answered => simp [served] at answered
  | nodesSpent _ answered no bounded spent =>
    exact ⟨by simp [Exchange.rejectsNode, hk, answered, no, Stage.kind], _, bounded, spent⟩

/-- A budget for exchanges of a sort: a run that goes on has kept to it, an exchange beyond it ends
the run with an error that holds the number reached, and nothing else raises such an error. -/
structure Guards (f : NodeFilter) (settings : Settings) (p : Exchange → Bool) (budget : Nat)
    (error : Nat → Error) (Raises : Error → Prop) : Prop where
  kept : ∀ {calls q}, Path f (.opening settings) calls q → calls.countP p ≤ budget
  ends : ∀ {before q x r}, Path f (.opening settings) before q → Ends f q x r → p x = true →
    x.error? = none ∧ budget ≤ before.countP p ∧ r = .error (error (before.countP p + 1))
  raised : ∀ {before q x e}, Path f (.opening settings) before q → Ends f q x (.error e) →
    Raises e → x.error? = none → p x = true ∧ budget ≤ before.countP p

variable {p : Exchange → Bool} {budget : Nat} {error : Nat → Error} {Raises : Error → Prop}

theorem Guards.of_spent (g : Guards f settings p budget error Raises)
    (h : Course f (.opening settings) rounds calls outcome) (spent : budget < calls.countP p) :
    outcome = .error (error (budget + 1)) ∧ Trace.Served calls ∧
      ∃ before x q, calls = before ++ [x] ∧ p x = true ∧ before.countP p = budget ∧
        Path f (.opening settings) before q ∧ Makes q x := by
  rcases h.cases with ⟨r, rfl, before, x, q, rfl, path, ends⟩ | ⟨-, a, path, -⟩
  · -- the history before the last exchange has kept to the budget, so that one goes beyond it
    have hkept := g.kept path
    rw [List.countP_append, List.countP_singleton] at spent
    by_cases hx : p x = true
    · obtain ⟨served, hspent, rfl⟩ := g.ends path ends hx
      have hbudget : before.countP p = budget := Nat.le_antisymm hkept hspent
      refine ⟨by rw [hbudget]; rfl, ?_, before, x, q, rfl, hx, hbudget, path, ends.makes⟩
      intro y hy
      rcases List.mem_append.mp hy with hy | hy
      · exact path.error?_eq_none y hy
      · rw [List.mem_singleton.mp hy]
        exact served
    · rw [if_neg hx] at spent
      omega
  · have hkept := g.kept path
    omega

theorem Guards.spent_of_raised (g : Guards f settings p budget error Raises) {e : Error}
    (h : Course f (.opening settings) rounds calls (.error e)) (he : Raises e)
    (served : Trace.Served calls) : budget < calls.countP p := by
  obtain ⟨before, x, q, rfl, path, ends⟩ := h
  obtain ⟨hx, hspent⟩ := g.raised path ends he (served x (by simp))
  rw [List.countP_append, List.countP_singleton, if_pos hx]
  omega

theorem guards_questions (f : NodeFilter) (settings : Settings) :
    Guards f settings Exchange.rejectsQuestion settings.maxTries
      (fun n => .retriesExhausted n settings.maxTries)
      (fun e => ∃ n max, e = .retriesExhausted n max) where
  kept path := by
    have hset : _ = settings := path.settings
    have hcount : List.countP Exchange.rejectsQuestion _ = _ := path.ledger.questions
    rw [hcount]
    exact hset ▸ path.within.1
  ends path ends hx := by
    have hset : _ = settings := path.settings
    have hcount : List.countP Exchange.rejectsQuestion _ = _ := path.ledger.questions
    rw [hcount]
    exact hset ▸ ends.of_rejectsQuestion hx
  raised path ends he served := by
    obtain ⟨n, max, rfl⟩ := he
    have hset : _ = settings := path.settings
    have hcount : List.countP Exchange.rejectsQuestion _ = _ := path.ledger.questions
    rw [hcount]
    exact hset ▸ ends.rejectsQuestion served

theorem guards_nodes (f : NodeFilter) {settings : Settings} {max : Nat}
    (bounded : settings.maxResamples = some max) :
    Guards f settings (Exchange.rejectsNode f) max .resamplesExhausted
      (fun e => ∃ n, e = .resamplesExhausted n) where
  kept path := by
    have hset : _ = settings := path.settings
    have hcount : List.countP (Exchange.rejectsNode f) _ = _ := path.ledger.nodes
    rw [hcount]
    exact path.within.2 max (hset ▸ bounded)
  ends path ends hx := by
    have hset : _ = settings := path.settings
    have hcount : List.countP (Exchange.rejectsNode f) _ = _ := path.ledger.nodes
    obtain ⟨served, ⟨m, hm, hspent⟩, hr⟩ := ends.of_rejectsNode hx
    obtain rfl : m = max := Option.some.inj (hm.symm.trans (hset ▸ bounded))
    rw [hcount]
    exact ⟨served, hspent, hr⟩
  raised path ends he served := by
    obtain ⟨n, rfl⟩ := he
    have hset : _ = settings := path.settings
    have hcount : List.countP (Exchange.rejectsNode f) _ = _ := path.ledger.nodes
    obtain ⟨hx, m, hm, hspent⟩ := ends.rejectsNode served
    obtain rfl : m = max := Option.some.inj (hm.symm.trans (hset ▸ bounded))
    rw [hcount]
    exact ⟨hx, hspent⟩

theorem Path.seeds_eq (path : Path f (.opening settings) calls q) (made : Makes q x)
    (hx : x.rejectsQuestion = true) :
    Trace.count .seed (calls ++ [x]) = Trace.rejectedQuestions calls + 1 := by
  have hk := made.kind
  have hseeds := path.ledger.seeds
  have hquestions := path.ledger.questions
  have hround : q.asked + (if x.kind = .seed then 1 else 0) = 1 := by
    cases q <;> simp_all [Exchange.rejectsQuestion, Stage.kind, Stage.asked]
  simp only [Trace.count, List.countP_append, List.countP_singleton, decide_eq_true_eq] at *
  omega

/-- An exhausted budget is raised exactly when one more question, or one more node, is rejected than
the budget tolerates; the number is that of the last rejection, and no call follows it. -/
theorem exhausted_iff_overspent {σ : Type} (f : NodeFilter) (settings : Settings) (rounds : Nat)
    (w : Collaborators) (s : σ) (t : Trace) :
    ∃ outcome calls, singleContext f settings rounds w s t = (outcome, s, t ++ calls) ∧
      ((Trace.Served calls ∧ ∃ n max, outcome = .error (.retriesExhausted n max)) ↔
        settings.maxTries < Trace.rejectedQuestions calls) ∧
      (settings.maxTries < Trace.rejectedQuestions calls →
        outcome = .error (.retriesExhausted (settings.maxTries + 1) settings.maxTries) ∧
        Trace.count .seed calls = settings.maxTries + 1 ∧
        Trace.EndsAt Exchange.rejectsQuestion (settings.maxTries + 1) calls) ∧
      ∀ max, settings.maxResamples = some max →
        ((Trace.Served calls ∧ ∃ n, outcome = .error (.resamplesExhausted n)) ↔
          max < Trace.rejectedNodes f calls) ∧
        (max < Trace.rejectedNodes f calls →
          outcome = .error (.resamplesExhausted (max + 1)) ∧
          Trace.EndsAt (Exchange.rejectsNode f) (max + 1) calls) := by
  obtain ⟨outcome, calls, hrun, hcourse⟩ := singleContext_keeps f settings rounds w s t
  refine ⟨outcome, calls, hrun, ⟨?_, ?_⟩, ?_, fun max bounded => ⟨⟨?_, ?_⟩, ?_⟩⟩
  · rintro ⟨served, n, max, rfl⟩
    exact (guards_questions f settings).spent_of_raised hcourse ⟨n, max, rfl⟩ served
  · intro spent
    obtain ⟨houtcome, served, -⟩ := (guards_questions f settings).of_spent hcourse spent
    exact ⟨served, _, _, houtcome⟩
  · intro spent
    obtain ⟨houtcome, -, before, x, q, rfl, hx, hn, path, made⟩ :=
      (guards_questions f settings).of_spent hcourse spent
    refine ⟨houtcome, ?_, before, x, rfl, hx, by rw [hn]⟩
    rw [path.seeds_eq made hx]
    exact congrArg (· + 1) hn
  · rintro ⟨served, n, rfl⟩
    exact (guards_nodes f bounded).spent_of_raised hcourse ⟨n, rfl⟩ served
  · intro spent
    obtain ⟨houtcome, served, -⟩ := (guards_nodes f bounded).of_spent hcourse spent
    exact ⟨served, _, houtcome⟩
  · intro spent
    obtain ⟨houtcome, -, before, x, q, rfl, hx, hn, -⟩ :=
      (guards_nodes f bounded).of_spent hcourse spent
    exact ⟨houtcome, before, x, rfl, hx, by rw [hn]⟩

theorem exhausted_iff_overspent_scripted :
    ∃ calls, singleContext ⟨NodeFilter.defaultThreshold⟩ { scriptedSettings with maxTries := 0 } 3
        script () [] = (.error (.retriesExhausted 1 0), (), [] ++ calls) ∧
      Trace.count .seed calls = 1 ∧ Trace.EndsAt Exchange.rejectsQuestion 1 calls := by
  have hraised : (singleContext ⟨NodeFilter.defaultThreshold⟩
      { scriptedSettings with maxTries := 0 } 3 script () []).1.error? =
        some (.retriesExhausted 1 0) := by decide +kernel
  have hserved : (singleContext ⟨NodeFilter.defaultThreshold⟩
      { scriptedSettings with maxTries := 0 } 3 script () []).2.2.all
        (fun x => x.error?.isNone) = true := by decide +kernel
  obtain ⟨outcome, calls, hrun, ⟨hspent, -⟩, hlast, -⟩ := exhausted_iff_overspent
    ⟨NodeFilter.defaultThreshold⟩ { scriptedSettings with maxTries := 0 } 3 script () []
  rw [hrun] at hraised hserved
  have served : Trace.Served calls := by simpa [Trace.Served] using hserved
  cases outcome with
  | error e =>
    obtain rfl : e = .retriesExhausted 1 0 := Option.some.inj hraised
    obtain ⟨-, hseeds, hends⟩ := hlast (hspent ⟨served, 1, 0, rfl⟩)
    exact ⟨calls, hrun, hseeds, hends⟩
  | _ => cases hraised

end Evolution

end QuestionSynthesis
