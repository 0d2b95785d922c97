import QuestionSynthesis.Proofs.Evolution.Budget
import QuestionSynthesis.Proofs.Evolution.MultiContext

/-!
# Where errors come from

A run stops at the first call that fails, with the error of that call (`Halted`). A run whose calls
all succeeded ends in an error only for one of the reasons that the engine has itself (`Raised`):
a budget that was exceeded, or a last answer with nothing in it to go on with.
-/

namespace QuestionSynthesis

open Session (firstNode firstText)

/-- Every call succeeded, or the last one failed and the run ended with its error. -/
def Trace.Halted {α : Type} (calls : Trace) (outcome : Outcome α) : Prop :=
  calls.Served ∨ ∃ before x e, calls = before ++ [x] ∧ Trace.Served before ∧ x.error? = some e ∧
    outcome = .error e

namespace Trace

variable {α : Type} {before calls : Trace} {x : Exchange} {outcome : Outcome α}

theorem Served.append (h : before.Served) (h' : calls.Served) : (before ++ calls).Served := by
  intro y hy
  rcases List.mem_append.mp hy with hy | hy
  · exact h y hy
  · exact h' y hy

theorem served_cons : Trace.Served (x :: calls) ↔ x.error? = none ∧ calls.Served :=
  List.forall_mem_cons

theorem served_singleton : Trace.Served [x] ↔ x.error? = none := by simp [Served]

theorem Halted.of_last (before : Trace) (served : before.Served)
    (h : ∀ e, x.error? = some e → outcome = .error e) : Halted (before ++ [x]) outcome := by
  cases hx : x.error? with
  | none => exact .inl (served.append (served_singleton.mpr hx))
  | some e => exact .inr ⟨before, x, e, rfl, served, hx, h e hx⟩

theorem Halted.prepend (hb : before.Served) (h : Halted calls outcome) :
    Halted (before ++ calls) outcome := by
  obtain h | ⟨middle, x, e, rfl, hm, hx, rfl⟩ := h
  · exact .inl (hb.append h)
  · exact .inr ⟨before ++ middle, x, e, (List.append_assoc ..).symm, hb.append hm, hx, rfl⟩

theorem Halted.served {a : α} (h : Halted calls (.value a)) : calls.Served := by
  obtain h | ⟨_, _, _, _, _, _, he⟩ := h
  · exact h
  · cases he

end Trace

theorem Completions.eq_of_firstText?_eq_none {c : Completions} (h : c.firstText? = none) :
    c = ⟨[], c.usage⟩ := by
  obtain ⟨generations, usage⟩ := c
  cases generations with
  | nil => rfl
  | cons g more => cases h

namespace Evolution

variable {f : NodeFilter} {settings : Settings} {rounds : Nat} {calls : Trace} {x : Exchange}
  {e : Error} {w : Collaborators} {t : Trace}

def rewritings : List (Template × String) :=
  [(.multiContextQuestion, "multi-context rewrite"), (.compressQuestion, "compression")]

/-- Why a run raises an error although every call succeeded. -/
inductive Raised (f : NodeFilter) (settings : Settings) (kind : Kind) (calls : Trace) :
    Error → Prop where
  | retries (spent : Trace.EndsAt Exchange.rejectsQuestion (settings.maxTries + 1) calls) :
      Raised f settings kind calls (.retriesExhausted (settings.maxTries + 1) settings.maxTries)
  | resamples {max} (bounded : settings.maxResamples = some max)
      (spent : Trace.EndsAt (Exchange.rejectsNode f) (max + 1) calls) :
      Raised f settings kind calls (.resamplesExhausted (max + 1))
  | noNode (last : calls.getLast? = some (.sample 1 (.ok []))) :
      Raised f settings kind calls (.insufficientNodes 1 0)
  | noCompletion {prompt usage}
      (last : calls.getLast? = some (.generate prompt 1 (.ok ⟨[], usage⟩))) :
      Raised f settings kind calls .noCompletions
  | alone {anchor more} (multi : kind = .multiContext)
      (first : calls.head? = some (.sample 1 (.ok (anchor :: more))))
      (last : calls.getLast? = some (.similar anchor.id (.ok []))) :
      Raised f settings kind calls (.noSimilarContext anchor.id)
  | blank {template step vars x} (multi : kind = .multiContext)
      (rewriting : (template, step) ∈ rewritings) (last : calls.getLast? = some x)
      (asks : x.Asks template vars) (empty : x.text? = some "") :
      Raised f settings kind calls (.emptyQuestion step)

theorem Raised.cons {answer : Except Error (List Node)} (h : Raised f settings .simple calls e) :
    Raised f settings .multiContext (.sample 1 answer :: calls) e := by
  have hlast : ∀ y, calls.getLast? = some y → (.sample 1 answer :: calls).getLast? = some y := by
    intro y hy
    simp [List.getLast?_cons, hy]
  have hspent : ∀ p n, p (.sample 1 answer) = false → Trace.EndsAt p n calls →
      Trace.EndsAt p n (.sample 1 answer :: calls) := by
    rintro p n hp ⟨before, y, rfl, hy, rfl⟩
    exact ⟨.sample 1 answer :: before, y, rfl, hy, by simp [hp]⟩
  cases h with
  | retries spent => exact .retries (hspent _ _ rfl spent)
  | resamples bounded spent => exact .resamples bounded (hspent _ _ rfl spent)
  | noNode last => exact .noNode (hlast _ last)
  | noCompletion last => exact .noCompletion (hlast _ last)
  | alone multi => cases multi
  | blank multi => cases multi

theorem Ends.error_of_failed {q : Stage} {r : Except Error Evolved} (h : Ends f q x r)
    (hx : x.error? = some e) : r = .error e := by
  cases h with
  | failed _ answered => rw [hx] at answered; cases answered; rfl
  | noNode => cases hx
  | noCompletion => cases hx
  | nodesSpent _ answered => rw [Exchange.error?_of_text? answered] at hx; cases hx
  | blankSpent _ answered => rw [Exchange.error?_of_text? answered] at hx; cases hx
  | refusedSpent _ answered => rw [Exchange.error?_of_text? answered] at hx; cases hx
  | kept _ answered => rw [Exchange.error?_of_text? answered] at hx; cases hx

theorem Course.halted {q : Stage} {n : Nat} {outcome : Outcome Evolved}
    (h : Course f q n calls outcome) : calls.Halted outcome := by
  rcases h.cases with ⟨r, rfl, before, x, q', rfl, path, ends⟩ | ⟨-, a, path, -⟩
  · apply Trace.Halted.of_last before path.error?_eq_none
    intro e hx
    rw [ends.error_of_failed hx]
    rfl
  · exact .inl path.error?_eq_none

theorem Guards.endsAt {p : Exchange → Bool} {budget : Nat} {error : Nat → Error}
    {Raises : Error → Prop} (g : Guards f settings p budget error Raises)
    (h : Course f (.opening settings) rounds calls (.error e)) (he : Raises e)
    (served : Trace.Served calls) : e = error (budget + 1) ∧ Trace.EndsAt p (budget + 1) calls := by
  obtain ⟨houtcome, -, before, x, -, hcalls, hx, hcount, -⟩ :=
    g.of_spent h (g.spent_of_raised h he served)
  cases houtcome
  exact ⟨rfl, before, x, hcalls, hx, by rw [hcount]⟩

theorem Course.raised (h : Course f (.opening settings) rounds calls (.error e))
    (served : Trace.Served calls) : Raised f settings .simple calls e := by
  obtain ⟨before, x, q, hcalls, path, ends⟩ := id h
  have hlast : calls.getLast? = some x := by rw [hcalls]; simp
  have hset : q.settings = settings := path.settings
  cases ends with
  | failed _ answered =>
    have hx := served x (by rw [hcalls]; simp)
    rw [hx] at answered
    cases answered
  | noNode => exact .noNode hlast
  | noCompletion _ none =>
    rw [Completions.eq_of_firstText?_eq_none none] at hlast
    exact .noCompletion hlast
  | @nodesSpent a _ _ max _ _ _ bounded =>
    have hbounded : settings.maxResamples = some max := by
      have ha : a.settings = settings := hset
      rwa [ha] at bounded
    obtain ⟨he, hends⟩ := (guards_nodes f hbounded).endsAt h ⟨_, rfl⟩ served
    rw [he]
    exact .resamples hbounded hends
  | blankSpent =>
    obtain ⟨he, hends⟩ := (guards_questions f settings).endsAt h ⟨_, _, rfl⟩ served
    rw [he]
    exact .retries hends
  | refusedSpent =>
    obtain ⟨he, hends⟩ := (guards_questions f settings).endsAt h ⟨_, _, rfl⟩ served
    rw [he]
    exact .retries hends

section

variable {template : Template} {vars : List (String × String)} {step : String}

theorem Rewriting.asks {r : Except Error String} (h : Rewriting w t template vars step x r) :
    x.Asks template vars := by
  cases h with
  | rewritten rendered => exact ⟨_, _, rendered, rfl⟩
  | blank rendered => exact ⟨_, _, rendered, rfl⟩
  | failed rendered => exact ⟨_, _, rendered, rfl⟩

theorem Rewriting.served {question : String}
    (h : Rewriting w t template vars step x (.ok question)) : x.error? = none := by
  cases h with
  | rewritten _ replied => exact Exchange.error?_of_text? (Session.text?_of_firstText replied)

theorem Rewriting.error_of_failed {r : Except Error String}
    (h : Rewriting w t template vars step x r) (hx : x.error? = some e) : r = .error e := by
  cases h with
  | rewritten _ replied =>
    rw [Exchange.error?_of_text? (Session.text?_of_firstText replied)] at hx
    cases hx
  | blank _ replied =>
    rw [Exchange.error?_of_text? (Session.text?_of_firstText replied)] at hx
    cases hx
  | failed _ refused =>
    obtain hanswer | ⟨_, hanswer, -⟩ := Session.error_of_firstText refused
    · rw [hanswer] at hx
      cases hx
      rfl
    · rw [hanswer] at hx
      cases hx

theorem Rewriting.raised (h : Rewriting w t template vars step x (.error e))
    (served : x.error? = none) (rewriting : (template, step) ∈ rewritings)
    (last : calls.getLast? = some x) : Raised f settings .multiContext calls e := by
  have asks := h.asks
  cases h with
  | blank _ replied =>
    exact .blank rfl rewriting last asks (Session.text?_of_firstText replied)
  | failed _ refused =>
    obtain hanswer | ⟨_, hanswer, none, rfl⟩ := Session.error_of_firstText refused
    · rw [hanswer] at served
      cases served
    · rw [hanswer, Completions.eq_of_firstText?_eq_none none] at last
      exact .noCompletion last

end

variable {anchor : Node} {seed : Evolved}

theorem Tail.halted {r : Except Error Evolved} (h : Tail w anchor seed t calls r) :
    calls.Halted (.ofExcept r) := by
  cases h with
  | unrelated refused =>
    apply Trace.Halted.of_last []
    · simp [Trace.Served]
    · rintro _ ⟨⟩
      rfl
  | alone related => exact .inl (Trace.served_singleton.mpr rfl)
  | @unmerged other more x e related merging =>
    apply Trace.Halted.of_last [.similar anchor.id (.ok (other :: more))]
    · exact Trace.served_singleton.mpr rfl
    · intro e' hx
      cases merging.error_of_failed hx
      rfl
  | @uncompressed other more x merged y e related merging compressing =>
    apply Trace.Halted.of_last [.similar anchor.id (.ok (other :: more)), x]
    · exact Trace.served_cons.mpr ⟨rfl, Trace.served_singleton.mpr merging.served⟩
    · intro e' hx
      cases compressing.error_of_failed hx
      rfl
  | kept related merging compressing =>
    left
    have hy := Trace.served_singleton.mpr compressing.served
    exact Trace.served_cons.mpr ⟨rfl, Trace.served_cons.mpr ⟨merging.served, hy⟩⟩

theorem Tail.raised {more : List Node} (h : Tail w anchor seed t calls (.error e))
    (before : Trace) (served : Trace.Served calls)
    (first : before.head? = some (.sample 1 (.ok (anchor :: more)))) :
    Raised f settings .multiContext (before ++ calls) e := by
  cases h with
  | unrelated refused => cases Trace.served_singleton.mp served
  | alone related => exact .alone rfl (by rw [List.head?_append, first]; rfl) (by simp)
  | unmerged related merging =>
    exact merging.raised (served _ (by simp)) (by simp [rewritings]) (by simp)
  | uncompressed related merging compressing =>
    exact compressing.raised (served _ (by simp)) (by simp [rewritings]) (by simp)

structure Traced (f : NodeFilter) (settings : Settings) (kind : Kind) (calls : Trace)
    (outcome : Outcome Evolved) : Prop where
  halted : calls.Halted outcome
  raised : ∀ e, outcome = .error e → Trace.Served calls → Raised f settings kind calls e

theorem Course.traced {outcome : Outcome Evolved}
    (h : Course f (.opening settings) rounds calls outcome) :
    Traced f settings .simple calls outcome := by
  refine ⟨h.halted, ?_⟩
  rintro e rfl served
  exact h.raised served

theorem singleContext_traced {σ : Type} {s : σ} {outcome : Outcome Evolved} {t' : Trace}
    (run : singleContext f settings rounds w s t = (outcome, s, t')) (added : t' = t ++ calls) :
    Traced f settings .simple calls outcome := by
  obtain ⟨outcome', calls', hrun, hcourse⟩ := singleContext_keeps f settings rounds w s t
  have heq := hrun.symm.trans run
  simp only [added, Prod.mk.injEq, List.append_cancel_left_eq, true_and] at heq
  obtain ⟨rfl, rfl⟩ := heq
  exact hcourse.traced

theorem Composed.traced {σ : Type} {s : σ} {outcome : Outcome Evolved}
    (h : Composed f settings rounds w s t calls outcome) :
    Traced f settings .multiContext calls outcome := by
  cases h with
  | noAnchor refused =>
    obtain hanswer | ⟨hanswer, rfl⟩ := Session.error_of_firstNode refused
    · rw [hanswer]
      refine ⟨.of_last [] (by simp [Trace.Served]) (by rintro _ ⟨⟩; rfl), ?_⟩
      intro _ _ served
      cases Trace.served_singleton.mp served
    · rw [hanswer]
      refine ⟨.inl (Trace.served_singleton.mpr rfl), ?_⟩
      rintro _ ⟨⟩ _
      exact .noNode rfl
  | noSeed sampled run unseeded =>
    have hsingle := singleContext_traced run (List.append_cons ..)
    refine ⟨hsingle.halted.prepend (Trace.served_singleton.mpr rfl), ?_⟩
    intro e he served
    exact (hsingle.raised e he fun y hy => served y (List.mem_cons_of_mem _ hy)).cons
  | @closed anchor more calls seed closing r sampled run tail =>
    have hseed : Trace.Served (.sample 1 (.ok (anchor :: more)) :: calls) :=
      .append (Trace.served_singleton.mpr rfl)
        (singleContext_traced run (List.append_cons ..)).halted.served
    refine ⟨tail.halted.prepend hseed, ?_⟩
    intro e he served
    cases r with
    | ok => cases he
    | error e' =>
      cases he
      have hclosing : closing.Served := fun y hy => served y (by simp [hy])
      exact tail.raised (.sample 1 (.ok (anchor :: more)) :: calls) hclosing rfl

theorem evolve_traced {σ : Type} (kind : Kind) (f : NodeFilter) (settings : Settings) (rounds : Nat)
    (w : Collaborators) (s : σ) (t : Trace) :
    ∃ outcome calls, evolve kind f settings rounds w s t = (outcome, s, t ++ calls) ∧
      Traced f settings kind calls outcome := by
  cases kind with
  | simple =>
    obtain ⟨outcome, calls, run, hcourse⟩ := singleContext_keeps f settings rounds w s t
    exact ⟨outcome, calls, run, hcourse.traced⟩
  | multiContext =>
    obtain ⟨calls, outcome, h⟩ := Composed.total f settings rounds w s t
    exact ⟨outcome, calls, h.run, h.traced⟩

end Evolution

end QuestionSynthesis
