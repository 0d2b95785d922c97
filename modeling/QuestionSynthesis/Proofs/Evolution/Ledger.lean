import QuestionSynthesis.Proofs.Evolution.Course

/-!
# The ledger of a run

What a history of exchanges adds up to, against the counters of the attempt that it leads to. Each
line of the ledger is a law of single steps (`Step.tries`, `Step.scores`, ...) summed along the path
by `Path.countP_eq` and `Path.countP_le`. A stage owes or holds what the present round has not
settled yet; `Path.ledger` collects the lines for a run from its opening.
-/

namespace QuestionSynthesis

namespace Exchange

def rejectsNode (f : NodeFilter) (x : Exchange) : Bool :=
  x.kind = .score ∧ x.text?.any fun reply => !f.passes reply

def asksQuestion (x : Exchange) : Bool := x.kind = .seed ∧ x.text?.any fun reply => !reply.isEmpty

def rejectsQuestion (x : Exchange) : Bool :=
  (x.kind = .seed ∧ x.text?.any fun reply => reply.isEmpty) ∨
    (x.kind = .judge ∧ x.text?.any fun reply => !QuestionFilter.passes reply)

theorem error?_of_rejectsNode {f : NodeFilter} {x : Exchange} (h : x.rejectsNode f = true) :
    x.error? = none := by
  simp only [rejectsNode, decide_eq_true_eq, Option.any_eq_true] at h
  obtain ⟨-, reply, hreply, -⟩ := h
  exact error?_of_text? hreply

theorem error?_of_rejectsQuestion {x : Exchange} (h : x.rejectsQuestion = true) :
    x.error? = none := by
  simp only [rejectsQuestion, decide_eq_true_eq, Option.any_eq_true] at h
  obtain ⟨-, reply, hreply, -⟩ | ⟨-, reply, hreply, -⟩ := h <;> exact error?_of_text? hreply

end Exchange

namespace Trace

def count (k : Exchange.Kind) (calls : Trace) : Nat := calls.countP fun x => x.kind = k

def rejectedNodes (f : NodeFilter) (calls : Trace) : Nat := calls.countP (·.rejectsNode f)

def askedQuestions (calls : Trace) : Nat := calls.countP (·.asksQuestion)

def rejectedQuestions (calls : Trace) : Nat := calls.countP (·.rejectsQuestion)

/-- The number of samples that were drawn because a window could not grow. -/
def fallbacks (calls : Trace) : Nat :=
  (calls.zip calls.tail).countP fun p => p.1.kind = .lookAhead ∧ p.2.kind = .sample

theorem count_snoc (k : Exchange.Kind) (calls : Trace) (x : Exchange) :
    count k (calls ++ [x]) = count k calls + if x.kind = k then 1 else 0 := by
  simp [count, List.countP_append, List.countP_singleton]

theorem askedQuestions_le_count (calls : Trace) : askedQuestions calls ≤ count .seed calls :=
  List.countP_mono_left fun x _ h => by
    simp only [Exchange.asksQuestion, decide_eq_true_eq] at h ⊢
    exact h.1

theorem zip_tail_snoc (calls : Trace) (x y : Exchange) :
    (calls ++ [x] ++ [y]).zip (calls ++ [x] ++ [y]).tail =
      (calls ++ [x]).zip (calls ++ [x]).tail ++ [(x, y)] := by
  induction calls with
  | nil => rfl
  | cons c calls ih =>
    cases calls with
    | nil => rfl
    | cons d calls => simpa using ih

theorem fallbacks_snoc (calls : Trace) (y : Exchange) :
    fallbacks (calls ++ [y]) = fallbacks calls +
      if calls.getLast?.map Exchange.kind = some .lookAhead ∧ y.kind = .sample then 1 else 0 := by
  rcases List.eq_nil_or_concat calls with rfl | ⟨before, x, rfl⟩
  · simp [fallbacks]
  · simp only [List.concat_eq_append, fallbacks, zip_tail_snoc, List.countP_append]
    simp

end Trace

namespace Evolution

open Stage (Makes)

variable {f : NodeFilter} {q q' : Stage} {x : Exchange} {calls : Trace}

namespace Stage

def kind : Stage → Exchange.Kind
  | .opening _ | .replacing _ | .startingOver _ => .sample
  | .scoring _ => .score
  | .seeding _ => .seed
  | .judging .. => .judge
  | .lookingBack _ => .lookBack
  | .lookingAhead _ => .lookAhead

theorem Makes.kind (h : Makes q x) : x.kind = q.kind := by
  cases h with
  | scoring rendered => exact Exchange.Kind.ofPrompt_contextScoring rendered
  | seeding rendered => exact Exchange.Kind.ofPrompt_seedQuestion rendered
  | judging rendered => exact Exchange.Kind.ofPrompt_filterQuestion rendered
  | _ => rfl

def settings : Stage → Settings
  | .opening settings => settings
  | .scoring a | .seeding a | .judging a _ | .lookingBack a | .lookingAhead a | .replacing a
  | .startingOver a => a.settings

def attempt? : Stage → Option Attempt
  | .opening _ => none
  | .scoring a | .seeding a | .judging a _ | .lookingBack a | .lookingAhead a | .replacing a
  | .startingOver a => some a

def tries (q : Stage) : Nat := q.attempt?.elim 0 Attempt.tries

def resamples (q : Stage) : Nat := q.attempt?.elim 0 Attempt.resamples

/-- Scores of the present round that no rejection accounts for yet. -/
def scored : Stage → Nat
  | .seeding _ | .judging .. => 1
  | _ => 0

def asked : Stage → Nat
  | .judging .. => 1
  | _ => 0

def unsampled : Stage → Nat
  | .opening _ | .replacing _ => 1
  | _ => 0

def toLookBack : Stage → Nat
  | .lookingBack _ => 1
  | _ => 0

def toLookAhead : Stage → Nat
  | .lookingBack _ | .lookingAhead _ => 1
  | _ => 0

def toStartOver : Stage → Nat
  | .lookingBack _ | .lookingAhead _ | .startingOver _ => 1
  | _ => 0

end Stage

theorem Step.settings (h : Step f q x q') : q'.settings = q.settings := by
  cases h <;> rfl

theorem Step.resamples (h : Step f q x q') :
    q'.resamples = q.resamples + if x.rejectsNode f then 1 else 0 := by
  have hk := h.makes.kind
  cases h <;> simp_all [Exchange.rejectsNode, Stage.kind, Stage.resamples] <;> rfl

theorem Step.tries (h : Step f q x q') :
    q'.tries = q.tries + if x.rejectsQuestion then 1 else 0 := by
  have hk := h.makes.kind
  cases h <;> simp_all [Exchange.rejectsQuestion, Stage.kind, Stage.tries] <;> rfl

theorem Step.scores (h : Step f q x q') :
    q'.tries + q'.resamples + q'.scored =
      q.tries + q.resamples + q.scored + if x.kind = .score then 1 else 0 := by
  have ht := h.tries
  have hr := h.resamples
  have hk := h.makes.kind
  cases h <;>
    simp_all [Exchange.rejectsQuestion, Exchange.rejectsNode, Stage.kind, Stage.scored] <;> omega

theorem Step.seeds (h : Step f q x q') :
    q'.tries + q'.asked = q.tries + q.asked + if x.kind = .seed then 1 else 0 := by
  have ht := h.tries
  have hk := h.makes.kind
  cases h <;> simp_all [Exchange.rejectsQuestion, Stage.kind, Stage.asked]

theorem Step.judgements (h : Step f q x q') :
    (q'.asked + if x.kind = .judge then 1 else 0) =
      q.asked + if x.asksQuestion then 1 else 0 := by
  have hk := h.makes.kind
  cases h <;> simp_all [Exchange.asksQuestion, Stage.kind, Stage.asked]

theorem Step.looksBack (h : Step f q x q') :
    (q'.toLookBack + if x.kind = .lookBack then 1 else 0) =
      q.toLookBack + if x.rejectsQuestion then 1 else 0 := by
  have hk := h.makes.kind
  cases h <;> simp_all [Exchange.rejectsQuestion, Stage.kind, Stage.toLookBack]

theorem Step.looksAhead (h : Step f q x q') :
    (q'.toLookAhead + if x.kind = .lookAhead then 1 else 0) ≤
      q.toLookAhead + if x.rejectsQuestion then 1 else 0 := by
  have hk := h.makes.kind
  cases h <;> simp_all [Exchange.rejectsQuestion, Stage.kind, Stage.toLookAhead]

/-- Every sample but the first follows a rejected node or a window that could not grow. -/
theorem Step.samples (h : Step f q x q') :
    (q.resamples + q'.unsampled + if x.kind = .sample then 1 else 0) =
      q'.resamples + q.unsampled + if x.kind = .sample then q.toStartOver else 0 := by
  have hr := h.resamples
  have hk := h.makes.kind
  cases h <;>
    simp_all [Exchange.rejectsNode, Stage.kind, Stage.unsampled, Stage.toStartOver]

theorem Step.startsOver (h : Step f q x q') :
    (q.tries + q'.toStartOver + if x.kind = .sample then q.toStartOver else 0) ≤
      q'.tries + q.toStartOver := by
  have ht := h.tries
  have hk := h.makes.kind
  cases h <;> simp_all [Exchange.rejectsQuestion, Stage.kind, Stage.toStartOver]

theorem Step.sampleDue (h : Step f q x q') (hq : q'.kind = .sample) :
    x.kind = .lookAhead ↔ q'.toStartOver = 1 := by
  have hk := h.makes.kind
  cases h <;> simp_all [Stage.kind, Stage.toStartOver]

theorem Path.balance {p r : Exchange → Bool} (owed : Stage → Nat)
    (law : ∀ {q x q'}, Step f q x q' →
      (owed q' + if p x then 1 else 0) = owed q + if r x then 1 else 0)
    (path : Path f q calls q') : owed q' + calls.countP p = owed q + calls.countP r := by
  induction path with
  | nil => rfl
  | snoc _ step ih =>
    have hlaw := law step
    simp only [List.countP_append, List.countP_singleton]
    omega

theorem Path.balance_le {p r : Exchange → Bool} (owed : Stage → Nat)
    (law : ∀ {q x q'}, Step f q x q' →
      (owed q' + if p x then 1 else 0) ≤ owed q + if r x then 1 else 0)
    (path : Path f q calls q') : owed q' + calls.countP p ≤ owed q + calls.countP r := by
  induction path with
  | nil => exact Nat.le_refl _
  | snoc _ step ih =>
    have hlaw := law step
    simp only [List.countP_append, List.countP_singleton]
    omega

theorem Path.countP_eq {p : Exchange → Bool} (φ : Stage → Nat)
    (law : ∀ {q x q'}, Step f q x q' → φ q' = φ q + if p x then 1 else 0)
    (path : Path f q calls q') : φ q' = φ q + calls.countP p := by
  have h := path.balance (p := fun _ => false) (r := p) φ fun s => by simpa using law s
  simpa using h

theorem Path.settings (path : Path f q calls q') : q'.settings = q.settings := by
  induction path with
  | nil => rfl
  | snoc _ step ih => rw [step.settings, ih]

theorem Path.error?_eq_none (path : Path f q calls q') : ∀ x ∈ calls, x.error? = none := by
  induction path with
  | nil => simp
  | snoc _ step ih =>
    intro y hy
    rcases List.mem_append.mp hy with hy | hy
    · exact ih y hy
    · rw [List.mem_singleton.mp hy]
      exact step.error?_eq_none

variable {settings : Settings}

def Stage.Within (q : Stage) : Prop :=
  q.tries ≤ q.settings.maxTries ∧ ∀ max ∈ q.settings.maxResamples, q.resamples ≤ max

theorem Step.within (h : Step f q x q') (hq : q.Within) : q'.Within := by
  obtain ⟨ht, hr⟩ := hq
  cases h with
  | opened => exact ⟨Nat.zero_le _, fun _ _ => Nat.zero_le _⟩
  | nodeRejected _ _ _ room => exact ⟨ht, room⟩
  | blank _ _ room => exact ⟨room, hr⟩
  | refused _ _ _ room => exact ⟨room, hr⟩
  | _ => exact ⟨ht, hr⟩

theorem Path.within (path : Path f (.opening settings) calls q) : q.Within := by
  induction path with
  | nil => exact ⟨Nat.zero_le _, fun _ _ => Nat.zero_le _⟩
  | snoc _ step ih => exact step.within ih

/-- The samples of a history: how many there were, how many of them because a window could not
grow, and which of the two the next one will be. -/
structure Sampled (calls : Trace) (q : Stage) : Prop where
  due : q.kind = .sample →
    (calls.getLast?.map Exchange.kind = some .lookAhead ↔ q.toStartOver = 1)
  samples : Trace.count .sample calls + q.unsampled = 1 + q.resamples + Trace.fallbacks calls
  fallbacks : Trace.fallbacks calls + q.toStartOver ≤ q.tries

theorem Sampled.fallbacks_snoc (h : Sampled calls q) (s : Step f q x q') :
    Trace.fallbacks (calls ++ [x]) =
      Trace.fallbacks calls + if x.kind = .sample then q.toStartOver else 0 := by
  rw [Trace.fallbacks_snoc]
  by_cases hx : x.kind = .sample
  · have hdue := h.due (s.makes.kind ▸ hx)
    by_cases hq : q.toStartOver = 1
    · simp [hx, hdue.mpr hq, hq]
    · have hzero : q.toStartOver = 0 := by cases q <;> simp_all [Stage.toStartOver]
      simp [hx, mt hdue.mp hq, hzero]
  · simp [hx]

theorem Sampled.step (h : Sampled calls q) (s : Step f q x q') : Sampled (calls ++ [x]) q' where
  due hq := by simpa using s.sampleDue hq
  samples := by
    have hlaw := s.samples
    have hsamples := h.samples
    rw [h.fallbacks_snoc s]
    simp only [Trace.count, List.countP_append, List.countP_singleton, decide_eq_true_eq] at *
    omega
  fallbacks := by
    have hlaw := s.startsOver
    have hfallbacks := h.fallbacks
    rw [h.fallbacks_snoc s]
    omega

theorem Path.sampled (path : Path f (.opening settings) calls q) : Sampled calls q := by
  induction path with
  | nil => exact ⟨by simp [Stage.toStartOver], rfl, Nat.le_refl _⟩
  | snoc _ step ih => exact ih.step step

structure Ledger (f : NodeFilter) (calls : Trace) (q : Stage) : Prop extends Sampled calls q where
  nodes : Trace.rejectedNodes f calls = q.resamples
  questions : Trace.rejectedQuestions calls = q.tries
  scores : Trace.count .score calls = q.tries + q.resamples + q.scored
  seeds : Trace.count .seed calls = q.tries + q.asked
  judgements : Trace.count .judge calls + q.asked = Trace.askedQuestions calls
  looksBack : Trace.count .lookBack calls + q.toLookBack = q.tries
  looksAhead : Trace.count .lookAhead calls + q.toLookAhead ≤ q.tries

theorem Path.ledger (path : Path f (.opening settings) calls q) : Ledger f calls q := by
  have questions : q.tries = 0 + Trace.rejectedQuestions calls :=
    path.countP_eq Stage.tries Step.tries
  have nodes : q.resamples = 0 + Trace.rejectedNodes f calls :=
    path.countP_eq Stage.resamples Step.resamples
  have scores : q.tries + q.resamples + q.scored = 0 + Trace.count .score calls :=
    path.countP_eq (fun q => q.tries + q.resamples + q.scored) fun s => by simpa using s.scores
  have seeds : q.tries + q.asked = 0 + Trace.count .seed calls :=
    path.countP_eq (fun q => q.tries + q.asked) fun s => by simpa using s.seeds
  have judgements : q.asked + Trace.count .judge calls = 0 + Trace.askedQuestions calls :=
    path.balance Stage.asked fun s => by simpa using s.judgements
  have looksBack : q.toLookBack + Trace.count .lookBack calls =
      0 + Trace.rejectedQuestions calls :=
    path.balance Stage.toLookBack fun s => by simpa using s.looksBack
  have looksAhead : q.toLookAhead + Trace.count .lookAhead calls ≤
      0 + Trace.rejectedQuestions calls :=
    path.balance_le Stage.toLookAhead fun s => by simpa using s.looksAhead
  exact { path.sampled with
    nodes := by omega
    questions := by omega
    scores := by omega
    seeds := by omega
    judgements := by omega
    looksBack := by omega
    looksAhead := by omega }

end Evolution

end QuestionSynthesis
