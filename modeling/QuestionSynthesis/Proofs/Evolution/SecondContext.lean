import QuestionSynthesis.Proofs.Corpus.Ranking
import QuestionSynthesis.Proofs.Evolution.Answered

/-!
# Where the second context comes from

The second context of a question is where the best link of its anchor leads, and nothing keeps that
link from leading back: a chunk that is linked to itself with the best score is both contexts of its
questions. A graph has no such question exactly if no best link of it is a loop
(`second_context_linked`). For the way back, a service is enough that answers everything with one
text that both filters pass (`Collaborators.Praises`).
-/

namespace QuestionSynthesis

namespace Session

variable {σ τ α β : Type} {w : Collaborators} {s : σ}

def Gives (w : Collaborators) (m : Session σ α) (s : σ) (v : α) : Prop :=
  ∀ t, ∃ t', m w s t = (.value v, s, t')

theorem Gives.bind {m : Session σ α} {f : α → Session σ β} {v : α} {v' : β}
    (h : Gives w m s v) (next : Gives w (f v) s v') : Gives w (m >>= f) s v' := by
  intro t
  obtain ⟨t', run⟩ := h t
  obtain ⟨t'', rest⟩ := next t'
  exact ⟨t'', (bind_value run).trans rest⟩

theorem Gives.pure (v : α) : Gives w (pure v : Session σ α) s v := fun t => ⟨t, rfl⟩

theorem Gives.state : Gives w (state : Session σ σ) s s := fun t => ⟨t, rfl⟩

theorem Gives.ofExcept {x : Except Error α} {v : α} (h : x = .ok v) :
    Gives w (ofExcept x : Session σ α) s v := by
  subst h
  exact fun t => ⟨t, rfl⟩

theorem Gives.within {a : τ} {m : Session τ α} {v : α} (h : Gives w m a v) :
    Gives w (within a m : Session σ α) s v := by
  intro t
  obtain ⟨t', run⟩ := h t
  exact ⟨t', by rw [within_run, run]⟩

theorem Gives.sampleOne {n : Node} (h : ∀ t, firstNode (w.store.sample t 1) = .ok n) :
    Gives w (sampleOne : Session σ Node) s n := by
  intro t
  rw [sampleOne_run, h t]
  exact ⟨_, rfl⟩

theorem Gives.generateText {reply : String} (prompt : String)
    (h : ∀ t, firstText (w.service.generate t prompt 1) = .ok reply) :
    Gives w (generateText prompt : Session σ String) s reply := by
  intro t
  rw [generateText_run, h t]
  exact ⟨_, rfl⟩

end Session

/-- The service answers everything with one text, and both filters pass that text. -/
structure Collaborators.Praises (w : Collaborators) (f : NodeFilter) (reply : String) : Prop where
  replies : ∀ t prompt, Session.firstText (w.service.generate t prompt 1) = .ok reply
  nodes : f.passes reply = true
  questions : QuestionFilter.passes reply = true
  nonempty : reply ≠ ""

namespace Collaborators.Praises

open Evolution
open Session (Gives firstNode)

variable {w : Collaborators} {f : NodeFilter} {reply : String} {σ : Type} {s : σ}

theorem asks (h : w.Praises f reply) (template : Template) (vars : List (String × String))
    (supplied : vars.map Prod.fst = template.inputs) :
    ∃ prompt, template.render vars = .ok prompt ∧
      Gives w (Session.generateText prompt) s reply := by
  obtain ⟨prompt, rendered⟩ := template.render_of_inputs vars supplied
  exact ⟨prompt, rendered, .generateText prompt fun t => h.replies t prompt⟩

theorem node (h : w.Praises f reply) (n : Node) :
    ∃ verdict, verdict.passed = true ∧ Gives w (f.evaluate n) s verdict := by
  obtain ⟨prompt, rendered, replied⟩ := h.asks .contextScoring [("context", n.content)] rfl
  exact ⟨_, h.nodes, (Gives.ofExcept rendered).bind (replied.bind (.pure _))⟩

theorem question (h : w.Praises f reply) (question : String) :
    Gives w (QuestionFilter.evaluate question) s true := by
  obtain ⟨prompt, rendered, replied⟩ := h.asks .filterQuestion [("question", question)] rfl
  rw [← h.questions]
  exact (Gives.ofExcept rendered).bind (replied.bind (.pure _))

theorem seed (h : w.Praises f reply) (a : Attempt) : Gives w SingleContext.seed a reply := by
  obtain ⟨prompt, rendered, replied⟩ := h.asks .seedQuestion
    [("context", a.context), ("style", a.settings.style.describe),
      ("length", a.settings.length.describe)] rfl
  exact Gives.state.bind ((Gives.ofExcept rendered).bind replied)

theorem rewrites (h : w.Praises f reply) (template : Template) (vars : List (String × String))
    (supplied : vars.map Prod.fst = template.inputs) (step : String) :
    Gives w (do
      let prompt ← Session.ofExcept (template.render vars)
      nonEmpty step (← Session.generateText prompt)) s reply := by
  obtain ⟨prompt, rendered, replied⟩ := h.asks template vars supplied
  exact (Gives.ofExcept rendered).bind (replied.bind fun t => ⟨t, nonEmpty_of_ne h.nonempty⟩)

theorem round (h : w.Praises f reply) (a : Attempt) :
    Gives w (SingleContext.round f) a (.kept (SingleContext.keep reply a)) := by
  obtain ⟨verdict, passed, scored⟩ := h.node (s := a) a.front
  have kept : Gives w (SingleContext.isKept reply) a true := by
    have hne : reply.isEmpty = false := by simpa using h.nonempty
    simp only [SingleContext.isKept, hne]
    exact h.question reply
  refine Gives.state.bind (scored.bind ?_)
  rw [if_pos passed]
  exact (h.seed a).bind (kept.bind (Gives.state.bind (.pure _)))

variable {n other : Node} {more : List Node}

theorem singleContext (h : w.Praises f reply)
    (sampled : ∀ t, firstNode (w.store.sample t 1) = .ok n) (settings : Settings) (rounds : Nat) :
    Gives w (singleContext f settings (rounds + 1)) s
      (SingleContext.keep reply (.on n settings)) := by
  have started : Gives w (Attempt.start settings) s (.on n settings) :=
    (Gives.sampleOne sampled).bind (.pure _)
  exact started.bind (.within ((h.round _).bind (.pure _)))

theorem multiContext (h : w.Praises f reply)
    (sampled : ∀ t, firstNode (w.store.sample t 1) = .ok n)
    (related : ∀ t, w.store.similar t n.id = .ok (other :: more)) (settings : Settings)
    (rounds : Nat) :
    Gives w (multiContext f settings (rounds + 1)) s
      (across n other (SingleContext.keep reply (.on n settings)) reply) := by
  have nearest : Gives w (mostSimilar n.id) s other := fun t => ⟨_, mostSimilar_run (related t)⟩
  have merged : Gives w (reconcile reply n other) s reply := h.rewrites _ _ rfl _
  have condensed : Gives w (compress reply) s reply := h.rewrites _ _ rfl _
  exact (Gives.sampleOne sampled).bind <| (h.singleContext sampled settings rounds).bind <|
    nearest.bind <| merged.bind <| condensed.bind <| .pure _

end Collaborators.Praises

def Chooser.preferring (i : Nat) : Chooser := fun _ available k =>
  if k = 1 ∧ i < available then [i] else List.range k

theorem Chooser.preferring_sound (i : Nat) : (Chooser.preferring i).Sound := by
  intro t available k h
  by_cases hone : k = 1 ∧ i < available
  · obtain ⟨rfl, hi⟩ := hone
    rw [preferring, if_pos ⟨rfl, hi⟩]
    exact ⟨rfl, List.nodup_singleton i, by simpa using hi⟩
  · rw [preferring, if_neg hone]
    exact Chooser.firsts_sound t available k h

def praise : String := "\x7b\"score\": 10\x7d"

def Collaborators.praising (g : Graph) (choose : Chooser) : Collaborators where
  store := g.store choose
  service := { generate := fun _ _ _ => .ok (.single praise) }
  clock := fun _ => default

theorem Collaborators.praising_praises (g : Graph) (choose : Chooser) :
    (praising g choose).Praises ⟨NodeFilter.defaultThreshold⟩ praise where
  replies _ _ := congrArg Except.ok (by decide +kernel : Text.trimmed praise = praise)
  nodes := by decide +kernel
  questions := by decide +kernel
  nonempty := by decide

theorem Assembly.Records.exists_position {a : Assembly} {first : Nat} {ops : List Operation}
    (h : a.Records first ops) {x : NodeId} {n : Node} (hn : a.build.node? x = some n) :
    ∃ i, ∀ t, (a.build.store (.preferring i)).sample t 1 = .ok [n] := by
  have hmem : x ∈ a.build.order := by
    have hadded := (h.nodes x n).mp hn
    rw [← Array.mem_toList_iff, show a.build.order = a.order from rfl, h.order]
    exact List.mem_map.mpr ⟨n, hadded⟩
  obtain ⟨i, hi, rfl⟩ := Array.mem_iff_getElem.mp hmem
  refine ⟨i, fun t => ?_⟩
  have hsize : ¬ a.build.order.size < 1 := by omega
  have hchosen : Chooser.preferring i t a.build.order.size 1 = [i] := if_pos ⟨rfl, hi⟩
  change a.build.sample 1 (Chooser.preferring i t a.build.order.size 1) = _
  rw [hchosen, Graph.sample, if_neg hsize]
  simp [hi, hn]

namespace Evolution

open Relationship (FirstRanked linksOf)

def Spans (g : Graph) (e : Evolved) : Prop :=
  ∃ (w : Collaborators) (choose : Chooser) (f : NodeFilter) (settings : Settings) (rounds : Nat)
    (σ : Type) (s s' : σ) (t t' : Trace), choose.Sound ∧ w.store = g.store choose ∧
      multiContext f settings rounds w s t = (.value e, s', t')

variable {a : Assembly} {first : Nat} {ops : List Assembly.Operation} {e : Evolved}

theorem Spans.linked (h : a.Records first ops) (spans : Spans a.build e) :
    ∃ anchor other r, e.contexts = [anchor, other] ∧
      FirstRanked (linksOf (Assembly.accepted first ops) anchor.id) r ∧ r.dst = other.id := by
  obtain ⟨w, choose, f, settings, rounds, σ, s, s', t, t', -, store, run⟩ := spans
  obtain ⟨anchor, _, _, seed, other, others, _, _, _, question, -, -, related, -, -, rfl⟩ :=
    multiContext_value run
  rw [store] at related
  obtain ⟨r, best, hid⟩ := h.firstRanked_of_similar related
  exact ⟨anchor, other, r, rfl, best, hid.symm⟩

theorem exists_spans (h : a.Records first ops) {x : NodeId} {r : Relationship}
    (best : FirstRanked (linksOf (Assembly.accepted first ops) x) r) :
    ∃ e, Spans a.build e ∧ e.contexts.map Node.id = [x, r.dst] := by
  obtain ⟨other, more, hsimilar, hid⟩ := h.similar_of_firstRanked best
  obtain ⟨-, -, ⟨n, hadded, rfl⟩, -⟩ := h.dst_of_link best.mem
  obtain ⟨i, sampled⟩ := h.exists_position ((h.nodes n.id n).mpr ⟨hadded, rfl⟩)
  have praises := Collaborators.praising_praises a.build (.preferring i)
  have hanchor := fun t => congrArg Session.firstNode (sampled t)
  obtain ⟨t', run⟩ := praises.multiContext (s := ()) hanchor (fun _ => hsimilar) {} 0 []
  refine ⟨_, ⟨_, _, _, _, _, _, _, _, _, _, Chooser.preferring_sound i, rfl, run⟩, ?_⟩
  simp [across, hid]

/-- The second context of a question is where the best link of the first one leads. So the two are
different chunks, whatever the service says, exactly if no best link leads back to its own chunk. -/
theorem second_context_linked (first : Nat) (ops : List Assembly.Operation) :
    let g := ((Assembly.empty first).performAll ops).build
    let links := linksOf (Assembly.accepted first ops)
    (∀ e, Spans g e → ∃ anchor other r, e.contexts = [anchor, other] ∧
      FirstRanked (links anchor.id) r ∧ r.dst = other.id) ∧
    ((∀ e, Spans g e → (e.contexts.map Node.id).Nodup) ↔
      ∀ x r, FirstRanked (links x) r → r.dst ≠ x) := by
  intro g links
  have h := Assembly.performAll_records first ops
  refine ⟨fun e spans => spans.linked h, ?_, ?_⟩
  · intro distinct x r best hloop
    obtain ⟨e, spans, hids⟩ := exists_spans h best
    have hnodup := distinct e spans
    rw [hids, hloop] at hnodup
    simp at hnodup
  · intro straight e spans
    obtain ⟨anchor, other, r, hcontexts, best, hdst⟩ := spans.linked h
    have hne := straight anchor.id r best
    rw [hdst] at hne
    simpa [hcontexts] using hne.symm

/-- Two similar chunks, of which the first is linked to itself as well, with the best score. -/
def loopOperations : List Assembly.Operation :=
  [.addChunk "doc" "a", .addChunk "doc" "b", .linkSimilar ⟨1⟩ ⟨1⟩ (.ofNat 1),
    .linkSimilar ⟨1⟩ ⟨2⟩ ⟨0x3feccccccccccccd⟩]

theorem loop_is_second_context :
    let g := (Assembly.new.performAll loopOperations).build
    ∃ e t', multiContext ⟨NodeFilter.defaultThreshold⟩ {} 1 (.praising g .firsts) () [] =
        (.value e, (), t') ∧ e.contexts.map Node.id = [⟨1⟩, ⟨1⟩] := by
  intro g
  have hloop : (linksOf (Assembly.accepted 1 loopOperations) ⟨1⟩).head?.any (fun r =>
      r.dst = ⟨1⟩ ∧ (linksOf (Assembly.accepted 1 loopOperations) ⟨1⟩).all r.rankLe) = true := by
    decide +kernel
  obtain ⟨r, hhead, hr⟩ := (Option.any_eq_true _ _).mp hloop
  obtain ⟨after, hlinks⟩ := List.head?_eq_some_iff.mp hhead
  obtain ⟨hdst, hall⟩ := of_decide_eq_true hr
  rw [hlinks, List.all_cons, Bool.and_eq_true] at hall
  have best : FirstRanked (linksOf (Assembly.accepted 1 loopOperations) ⟨1⟩) r :=
    ⟨[], after, hlinks, nofun, List.all_eq_true.mp hall.2⟩
  have h := Assembly.performAll_records 1 loopOperations
  obtain ⟨other, more, hsimilar, hid⟩ := h.similar_of_firstRanked best
  have praises := Collaborators.praising_praises g .firsts
  obtain ⟨t', run⟩ := praises.multiContext (s := ()) (fun _ => rfl) (fun _ => hsimilar) {} 0 []
  refine ⟨_, t', run, ?_⟩
  change [(⟨1⟩ : NodeId), other.id] = _
  rw [hid, hdst]

end Evolution

end QuestionSynthesis
